import SyncPrimitives.Concurrency.RaceFreedom
import SyncPrimitives.RingBuffer.Publication

/-!
# The orderings of the ring buffer

A push acquires `tail`, which a successful pop releases, so a producer that overwrites a slot has
learned of the reads of the slot before. Nothing releases `head`: the compare-and-exchange of a push
acquires it only, and it precedes the write of the slot. So the write of a slot is never ordered
with the pop that reads it, also when the slot has been written long before.

With one consumer that never pushes, and producers that never pop, two conflicting accesses to a
slot by different threads are ordered exactly if the earlier one is the read of the consumer
(`slot_ordered_iff_read`). Every value that is handed over is the subject of a data race.

`SlotTrace` says what the threads have learned of the reads of one slot.
-/

set_option autoImplicit false
set_option relaxedAutoImplicit false

namespace SyncPrimitives.RingBuffer

open Concurrency Concurrency.Memory Function

variable {Tid α : Type}

/-! ### The accesses -/

/-- The atomic words of the ring buffer. -/
inductive Word
  | head
  | tail
  deriving DecidableEq

/-- The access of a step of `push` or `try_push`. -/
def PushPc.access (s : Shared α) : PushPc α → Access → Memory.Access Word
  | .loadTail _, .go => .load .tail true
  | .loadHead _ _, .go => .load .head false
  | .compareExchange _ currentHead, .go =>
    if s.head = currentHead then .rmw .head true false else .load .head false
  | .compareExchange _ _, .spurious => .load .head false
  | _, _ => .none

/-- The access of a step of `pop`, which acquires `tail` when it releases it, or of `try_pop`. -/
def PopPc.access (s : Shared α) (acquire : Bool) : PopPc α → Access → Memory.Access Word
  | .loadTail, .go => .load .tail false
  | .loadHead _, .go => .load .head true
  | .compareExchange currentTail _, .go =>
    if s.tail = currentTail then .rmw .tail acquire true else .load .tail false
  | .compareExchange _ _, .spurious => .load .tail false
  | _, _ => .none

/-- The access of a step of a thread to the two words. -/
def access (s : Shared α) : Call α → Choice α → Memory.Access Word
  | .push pc, .access a => pc.access s a
  | .tryPush pc, .access a => pc.access s a
  | .pop pc, .access a => pc.access s true a
  | .tryPop pc, .access a => pc.access s false a
  | _, _ => .none

/-- The write of slot `k` by a push. -/
def PushPc.slotTouch (N k : ℕ) : PushPc α → Access → Touch
  | .write _ currentHead _, .go => if currentHead % N = k then .write else .none
  | _, _ => .none

/-- The read of slot `k` by a pop. -/
def PopPc.slotTouch (slot : ℕ → ℕ) (k : ℕ) : PopPc α → Access → Touch
  | .read currentTail, .go => if slot currentTail = k then .read else .none
  | _, _ => .none

/-- What a step of a thread does to slot `k`. -/
def slotTouch (N k : ℕ) (_ : Shared α) : Call α → Choice α → Touch
  | .push pc, .access a => pc.slotTouch N k a
  | .tryPush pc, .access a => pc.slotTouch N k a
  | .pop pc, .access a => pc.slotTouch (fun currentTail ↦ currentTail &&& (N - 1)) k a
  | .tryPop pc, .access a => pc.slotTouch (fun currentTail ↦ currentTail % N) k a
  | _, _ => .none

/-! ### What a producer knows -/

/-- A thread has learned all reads of slot `k`, or the slot has been read at a position behind the
value of `tail` that the thread has loaded. -/
def Behind (N k : ℕ) (s : Shared α) (learned : Prop) (currentTail : ℕ) : Prop :=
  learned ∨ ∃ q, currentTail ≤ q ∧ q ≤ s.popped.length ∧ q < s.claimed.length ∧ q % N = k

/-- What a position inside `push` or `try_push` says of the reads of slot `k`. -/
def PushPc.Knows (N k : ℕ) (s : Shared α) (learned : Prop) : PushPc α → Prop
  | .loadTail _ => True
  | .loadHead _ currentTail =>
    currentTail ≤ s.popped.length ∧ Behind N k s learned currentTail
  | .compareExchange _ currentHead => ∃ currentTail, currentTail ≤ s.popped.length ∧
    currentHead < currentTail + N ∧ Behind N k s learned currentTail
  | .write _ _ claim => claim % N = k → learned

/-- What a position says of the reads of slot `k`. -/
def Call.Knows (N k : ℕ) (s : Shared α) (learned : Prop) : Call α → Prop
  | .push pc => pc.Knows N k s learned
  | .tryPush pc => pc.Knows N k s learned
  | _ => True

section Knows

variable {N k currentTail : ℕ} {s s' : Shared α} {learned learned' : Prop}

theorem Behind.mono (h : Behind N k s learned currentTail)
    (hpopped : s.popped.length ≤ s'.popped.length) (hclaimed : s.claimed.length ≤ s'.claimed.length)
    (hlearned : learned → learned') : Behind N k s' learned' currentTail := by
  rcases h with hall | ⟨q, hle, hq, hlt, hslot⟩
  · exact .inl (hlearned hall)
  · exact .inr ⟨q, hle, hq.trans hpopped, hlt.trans_le hclaimed, hslot⟩

theorem PushPc.Knows.mono {pc : PushPc α} (h : pc.Knows N k s learned)
    (hpopped : s.popped.length ≤ s'.popped.length) (hclaimed : s.claimed.length ≤ s'.claimed.length)
    (hlearned : learned → learned') : pc.Knows N k s' learned' := by
  cases pc with
  | loadTail value => trivial
  | loadHead value currentTail => exact ⟨h.1.trans hpopped, h.2.mono hpopped hclaimed hlearned⟩
  | compareExchange value currentHead =>
    obtain ⟨currentTail, hle, hroom, hbehind⟩ := h
    exact ⟨currentTail, hle.trans hpopped, hroom, hbehind.mono hpopped hclaimed hlearned⟩
  | write value currentHead claim => exact fun hslot ↦ hlearned (h hslot)

/-- What is known stays known while nothing is read. -/
theorem Call.Knows.mono {call : Call α} (h : call.Knows N k s learned)
    (hpopped : s.popped.length ≤ s'.popped.length) (hclaimed : s.claimed.length ≤ s'.claimed.length)
    (hlearned : learned → learned') : call.Knows N k s' learned' := by
  cases call with
  | push pc => exact PushPc.Knows.mono h hpopped hclaimed hlearned
  | tryPush pc => exact PushPc.Knows.mono h hpopped hclaimed hlearned
  | _ => trivial

theorem PushPc.Knows.of_read {pc : PushPc α} (h : pc.Knows N k s learned)
    (hslot : s.popped.length % N = k) (hlt : s.popped.length < s.claimed.length)
    (hother : ∀ claim, pc.writing = some claim → claim % N ≠ k) : pc.Knows N k s learned' := by
  cases pc with
  | loadTail value => trivial
  | loadHead value currentTail => exact ⟨h.1, .inr ⟨_, h.1, le_rfl, hlt, hslot⟩⟩
  | compareExchange value currentHead =>
    obtain ⟨currentTail, hle, hroom, -⟩ := h
    exact ⟨currentTail, hle, hroom, .inr ⟨_, hle, le_rfl, hlt, hslot⟩⟩
  | write value currentHead claim => exact fun heq ↦ absurd heq (hother claim rfl)

/-- A read of slot `k` leaves what is known. Assumes: nobody is about to write the slot. -/
theorem Call.Knows.of_read {call : Call α} (h : call.Knows N k s learned)
    (hslot : s.popped.length % N = k) (hlt : s.popped.length < s.claimed.length)
    (hother : ∀ claim, call.writing = some claim → claim % N ≠ k) :
    call.Knows N k s learned' := by
  cases call with
  | push pc => exact PushPc.Knows.of_read h hslot hlt hother
  | tryPush pc => exact PushPc.Knows.of_read h hslot hlt hother
  | _ => trivial

/-- An access of a push keeps what is known. Assumes: the words are the counts, what has been
learned stays so, and a load of `tail` learns what has been released. -/
theorem pushWith_knows {retry : Bool} {pc pc' : PushPc α} {access : Access}
    {progress : Progress (PushPc α) (Except α Unit)} (h : pc.Knows N k s learned)
    (hhead : s.head = s.claimed.length) (htail : s.tail = s.popped.length)
    (hle : s.popped.length ≤ s.claimed.length) (hlt : s.claimed.length < 2 ^ 64)
    (hlearned : learned → learned')
    (hload : pc.access s access = .load .tail true → Behind N k s learned' s.popped.length)
    (hstep : pushWith N s retry pc access = some (s', progress)) (hgo : progress = .running pc') :
    pc'.Knows N k s' learned' := by
  have hfailed (value : α) (hgo : pushWith.failed retry value = .running pc') :
      pc'.Knows N k s learned' := by
    unfold pushWith.failed at hgo
    split_ifs at hgo
    obtain rfl := Progress.running.inj hgo
    trivial
  cases pc <;> cases access <;> simp only [pushWith, reduceCtorEq] at hstep
  case loadTail.go value =>
    obtain ⟨rfl, rfl⟩ := by simpa using hstep
    obtain rfl := Progress.running.inj hgo
    exact ⟨htail.le, htail ▸ hload rfl⟩
  case loadHead.go value currentTail =>
    obtain ⟨hbehind, hknown⟩ := h
    split_ifs at hstep with hfull
    all_goals obtain ⟨rfl, rfl⟩ := by simpa using hstep
    · cases hgo
    · obtain rfl := Progress.running.inj hgo
      refine ⟨currentTail, hbehind, ?_, hknown.mono le_rfl le_rfl hlearned⟩
      rw [hhead, subUsize_of_le (hbehind.trans hle) hlt] at hfull
      omega
  case compareExchange.go value currentHead =>
    obtain ⟨currentTail, hbehind, hroom, hknown⟩ := h
    split_ifs at hstep with hsame
    all_goals obtain ⟨rfl, rfl⟩ := by simpa using hstep
    · obtain rfl := Progress.running.inj hgo
      intro hslot
      rcases hknown with hall | ⟨q, htailq, hq, hclaimed, hslotq⟩
      · exact hlearned hall
      -- a read of slot `k` that is not learned is less than `N` behind the claim
      · exact absurd (hslot.trans hslotq.symm) (slot_ne hclaimed (by omega))
    · exact hfailed value hgo
  case compareExchange.spurious value currentHead =>
    obtain ⟨rfl, rfl⟩ := by simpa using hstep
    exact hfailed value hgo
  case write.go =>
    obtain ⟨rfl, rfl⟩ := by simpa using hstep
    cases hgo

end Knows

/-! ### The trace of a slot -/

/-- Every read of slot `k` happens before every later write of it; the reads are published at
`tail`, or the slot is that of the oldest position; and the threads know what their positions
say. -/
structure SlotTrace (N k : ℕ) (s : Shared α) (f : Tid → Call α) (events : Trace Tid Word) :
    Prop where
  ordered : ∀ i j e g, i < j → events[i]? = some e → events[j]? = some g → e.touch = .read →
    g.touch = .write → HappensBefore events i j
  published : ReadsPublished events .tail ∨
    s.popped.length < s.claimed.length ∧ s.popped.length % N = k
  knows : ∀ t, (f t).Knows N k s (ReadsLearned events t)

section Events

variable [DecidableEq Tid] {N k : ℕ} {s s' : Shared α} {f : Tid → Call α} {moved : Call α}
  {events : Trace Tid Word} {e : Event Tid Word}

omit [DecidableEq Tid] in
/-- An event that does not write the slot adds no later write. -/
theorem SlotTrace.ordered_append (h : SlotTrace N k s f events) (htouch : e.touch ≠ .write) :
    ∀ i j a b, i < j → (events ++ [e])[i]? = some a → (events ++ [e])[j]? = some b →
      a.touch = .read → b.touch = .write → HappensBefore (events ++ [e]) i j := by
  intro i j a b hlt ha hb hread hwrite
  rcases getElem?_append_cases hb with hb | ⟨-, rfl⟩
  · rcases getElem?_append_cases ha with ha | ⟨hlast, -⟩
    · exact (h.ordered i j a b hlt ha hb hread hwrite).append
    · have hbound := lt_length_of_some hb
      omega
  · exact absurd hwrite htouch

/-- An event that neither touches the slot nor releases. -/
theorem SlotTrace.stay (h : SlotTrace N k s f events) (htouch : e.touch = .none)
    (hstores : ¬ e.access.Stores .tail) (hpopped : s'.popped.length = s.popped.length)
    (hclaimed : s.claimed.length ≤ s'.claimed.length)
    (hmoved : moved.Knows N k s' (ReadsLearned (events ++ [e]) e.thread)) :
    SlotTrace N k s' (update f e.thread moved) (events ++ [e]) where
  ordered := h.ordered_append (by rw [htouch]; decide)
  published := by
    rcases h.published with hall | ⟨hlt, hslot⟩
    · exact .inl (hall.append (by rw [htouch]; decide) hstores)
    · rw [hpopped]
      exact .inr ⟨hlt.trans_le hclaimed, hslot⟩
  knows t := by
    by_cases ht : t = e.thread
    · rw [ht, update_self]
      exact hmoved
    · rw [update_of_ne ht]
      exact (h.knows t).mono hpopped.ge hclaimed fun hall ↦ hall.append (by rw [htouch]; decide)

/-- The write of the slot by a thread that has learned the reads. -/
theorem SlotTrace.write (h : SlotTrace N k s f events) (htouch : e.touch = .write)
    (hstores : ¬ e.access.Stores .tail) (hlearned : ReadsLearned events e.thread)
    (hpopped : s'.popped.length = s.popped.length)
    (hclaimed : s'.claimed.length = s.claimed.length) :
    SlotTrace N k s' (update f e.thread .idle) (events ++ [e]) where
  ordered i j a b hlt ha hb hread hwrite := by
    have hold := getElem?_of_append_not_read (by rw [htouch]; decide) ha hread
    rcases getElem?_append_cases hb with hb | ⟨rfl, rfl⟩
    · exact (h.ordered i j a b hlt hold hb hread hwrite).append
    · exact (hlearned i a hold hread).happensBefore
  published := by
    rcases h.published with hall | hslot
    · exact .inl (hall.append (by rw [htouch]; decide) hstores)
    · rw [hpopped, hclaimed]
      exact .inr hslot
  knows t := by
    by_cases ht : t = e.thread
    · rw [ht, update_self]
      trivial
    · rw [update_of_ne ht]
      exact (h.knows t).mono hpopped.ge hclaimed.ge
        fun hall ↦ hall.append (by rw [htouch]; decide)

/-- The read of the slot. Assumes: the slot is that of the oldest position, and nobody is about to
write it. -/
theorem SlotTrace.read (h : SlotTrace N k s f events) (htouch : e.touch = .read)
    (hlt : s.popped.length < s.claimed.length) (hslot : s.popped.length % N = k)
    (hother : ∀ t claim, (f t).writing = some claim → claim % N ≠ k)
    (hmoved : moved.Knows N k s (ReadsLearned (events ++ [e]) e.thread)) :
    SlotTrace N k s (update f e.thread moved) (events ++ [e]) where
  ordered := h.ordered_append (by rw [htouch]; decide)
  published := .inr ⟨hlt, hslot⟩
  knows t := by
    by_cases ht : t = e.thread
    · rw [ht, update_self]
      exact hmoved
    · rw [update_of_ne ht]
      exact (h.knows t).of_read hslot hlt (hother t)

/-- A successful pop. Assumes: the thread has made all reads of the slot. -/
theorem SlotTrace.release (h : SlotTrace N k s f events) (htouch : e.touch = .none)
    (hreleases : e.access.Releases .tail) (hreader : ∀ a ∈ events, a.touch = .read →
      a.thread = e.thread) (value : MaybeUninit α) :
    SlotTrace N k (s.release value) (update f e.thread .idle) (events ++ [e]) where
  ordered := h.ordered_append (by rw [htouch]; decide)
  published := by
    refine .inl (ReadsLearned.publish (fun i a ha hread ↦ ?_) (by rw [htouch]; decide) hreleases)
    rw [← hreader a (List.mem_of_getElem? ha) hread]
    exact learned_of_thread ha
  knows t := by
    by_cases ht : t = e.thread
    · rw [ht, update_self]
      trivial
    · rw [update_of_ne ht]
      refine (h.knows t).mono ?_ le_rfl fun hall ↦ hall.append (by rw [htouch]; decide)
      rw [length_popped_release]
      exact Nat.le_succ _

omit [DecidableEq Tid] in
theorem PushPc.access_not_stores {pc : PushPc α} {access : Access} {word : Word} :
    ¬ (pc.access s access).Stores word := by
  cases pc <;> cases access <;> simp only [PushPc.access]
  case compareExchange.go =>
    split_ifs
    · exact id
    · exact id
  all_goals exact id

omit [DecidableEq Tid] in
/-- A push touches the slot only by its write. -/
theorem PushPc.slotTouch_cases (N k : ℕ) (pc : PushPc α) (access : Access) :
    pc.slotTouch N k access = .none ∨ ∃ value currentHead claim,
      pc = .write value currentHead claim ∧ access = .go ∧ currentHead % N = k := by
  cases pc with
  | write value currentHead claim =>
    cases access with
    | go =>
      by_cases hk : currentHead % N = k
      · exact .inr ⟨value, currentHead, claim, rfl, rfl, hk⟩
      · exact .inl (if_neg hk)
    | spurious => exact .inl rfl
  | _ => exact .inl rfl

/-- A step of `push` or `try_push` keeps the trace. Assumes: the words are the counts, and the slot
about to be written is that of the claim. -/
theorem slotTrace_of_push {position : PushPc α → Call α}
    (hposition : position = .push ∨ position = .tryPush) {retry : Bool} {pc : PushPc α}
    {access : Access} {progress : Progress (PushPc α) (Except α Unit)}
    (h : SlotTrace N k s f events) (hcall : f e.thread = position pc)
    (hhead : s.head = s.claimed.length) (htail : s.tail = s.popped.length)
    (hle : s.popped.length ≤ s.claimed.length) (hlt : s.claimed.length < 2 ^ 64)
    (hentry : ∀ value currentHead claim, pc = .write value currentHead claim →
      currentHead % N = claim % N)
    (haccess : e.access = pc.access s access) (htouch : e.touch = pc.slotTouch N k access)
    (hstep : pushWith N s retry pc access = some (s', progress)) :
    SlotTrace N k s' (update f e.thread (progress.call position)) (events ++ [e]) := by
  have hknows : pc.Knows N k s (ReadsLearned events e.thread) := by
    have hself := h.knows e.thread
    rw [hcall] at hself
    rcases hposition with rfl | rfl <;> exact hself
  have hstores : ¬ e.access.Stores .tail := by
    rw [haccess]
    exact PushPc.access_not_stores
  have hlengths : s'.popped.length = s.popped.length ∧
      s.claimed.length ≤ s'.claimed.length := by
    cases pushWith_effect hstep with
    | claim => exact ⟨rfl, by simp⟩
    | _ => exact ⟨rfl, le_rfl⟩
  rcases PushPc.slotTouch_cases N k pc access with hnone | ⟨value, currentHead, claim, rfl, rfl, hk⟩
  · replace hnone := htouch.trans hnone
    refine h.stay hnone hstores hlengths.1 hlengths.2 ?_
    cases hprogress : progress with
    | returned ret => trivial
    | running pc' =>
      have hmoved : pc'.Knows N k s' (ReadsLearned (events ++ [e]) e.thread) := by
        refine pushWith_knows hknows hhead htail hle hlt
          (fun hall ↦ hall.append (by rw [hnone]; decide)) (fun hload ↦ ?_) hstep hprogress
        rcases h.published with hall | ⟨hclaimed, hslot⟩
        · refine .inl (hall.learn (by rw [hnone]; decide) ?_)
          rw [haccess, hload]
          exact ⟨rfl, rfl⟩
        · exact .inr ⟨_, le_rfl, le_rfl, hclaimed, hslot⟩
      rcases hposition with rfl | rfl <;> exact hmoved
  · obtain ⟨rfl, rfl⟩ := by simpa [pushWith] using hstep
    have hwrites : e.touch = .write := htouch.trans (if_pos hk)
    exact h.write hwrites hstores (hknows ((hentry _ _ _ rfl).symm.trans hk)) rfl rfl

/-- A step of `pop` or `try_pop` keeps the trace. Assumes: the thread has made all reads of the
slot, and nobody is about to write the slot that it reads. -/
theorem slotTrace_of_pop {position : PopPc α → Call α}
    (hposition : position = .pop ∨ position = .tryPop) {slot : ℕ → ℕ} {acquire retry : Bool}
    {pc : PopPc α} {access : Access} {progress : Progress (PopPc α) (Option (MaybeUninit α))}
    (h : SlotTrace N k s f events) (hbound : pc.Bound s) (htail : s.tail = s.popped.length)
    (hslot : slot s.tail = s.tail % N)
    (hreader : ∀ a ∈ events, a.touch = .read → a.thread = e.thread)
    (hother : pc.reading → s.popped.length % N = k →
      ∀ t claim, (f t).writing = some claim → claim % N ≠ k)
    (haccess : e.access = pc.access s acquire access)
    (htouch : e.touch = pc.slotTouch slot k access)
    (hstep : popWith s slot retry pc access = some (s', progress)) :
    SlotTrace N k s' (update f e.thread (progress.call position)) (events ++ [e]) := by
  have hmoved (progress : Progress (PopPc α) (Option (MaybeUninit α))) (s : Shared α)
      (learned : Prop) : (progress.call position).Knows N k s learned := by
    cases progress with
    | running pc' => rcases hposition with rfl | rfl <;> trivial
    | returned ret => trivial
  have hstay (hnone : e.touch = .none) (hstores : ¬ e.access.Stores .tail) (hsame : s' = s) :
      SlotTrace N k s' (update f e.thread (progress.call position)) (events ++ [e]) :=
    h.stay hnone hstores (by rw [hsame]) (by rw [hsame]) (hmoved progress s' _)
  cases pc <;> cases access <;> simp only [popWith, reduceCtorEq] at hstep
  case loadTail.go =>
    obtain ⟨rfl, rfl⟩ := by simpa using hstep
    exact hstay htouch (by rw [haccess]; exact id) rfl
  case loadHead.go =>
    split_ifs at hstep
    all_goals
      obtain ⟨rfl, rfl⟩ := by simpa using hstep
      exact hstay htouch (by rw [haccess]; exact id) rfl
  case read.go currentTail =>
    obtain ⟨rfl, rfl⟩ := by simpa using hstep
    obtain ⟨rfl, hlt⟩ := hbound
    simp only [PopPc.slotTouch, hslot] at htouch
    rw [htail] at htouch
    split_ifs at htouch with hk
    · exact h.read htouch hlt hk (hother rfl hk) (hmoved _ s _)
    · exact hstay htouch (by rw [haccess]; exact id) rfl
  case compareExchange.go currentTail value =>
    simp only [PopPc.access] at haccess
    split_ifs at hstep haccess with hsame
    all_goals obtain ⟨rfl, rfl⟩ := by simpa using hstep
    · subst hsame
      exact h.release htouch (by rw [haccess]; exact ⟨rfl, rfl⟩) hreader value
    · exact hstay htouch (by rw [haccess]; exact id) rfl
  case compareExchange.spurious =>
    obtain ⟨rfl, rfl⟩ := by simpa using hstep
    exact hstay htouch (by rw [haccess]; exact id) rfl

end Events

/-! ### One consumer and many producers -/

/-- Whether a choice starts a push. -/
def Choice.startsPush : Choice α → Bool
  | .call (.push _) => true
  | .call (.tryPush _) => true
  | _ => false

/-- Whether a position is inside `push` or `try_push`. -/
def Call.producing : Call α → Bool
  | .push _ => true
  | .tryPush _ => true
  | _ => false

section Roles

variable {N k : ℕ} {s s' : Shared α} {call moved : Call α} {choice : Choice α}

/-- A thread is inside a push that it was inside before, or it has just started it. -/
theorem producing_of_step (hstep : step N s call choice = some (s', moved))
    (hproducing : moved.producing) : call.producing ∨ choice.startsPush := by
  unfold step at hstep
  split at hstep
  case h_1 method =>
    obtain ⟨-, rfl⟩ := by simpa using hstep
    cases method <;> first | exact .inr rfl | cases hproducing
  case h_2 | h_3 => exact .inl rfl
  case h_4 | h_5 =>
    obtain ⟨⟨after, progress⟩, -, heq⟩ := Option.map_eq_some_iff.mp hstep
    obtain ⟨rfl, rfl⟩ := Prod.mk.inj heq
    cases progress <;> cases hproducing
  case h_6 => cases hstep

/-- A step claims one position at most, by a compare-and-exchange on `head`. -/
theorem claimed_of_step (hstep : step N s call choice = some (s', moved)) :
    s'.claimed.length = s.claimed.length ∨
      call.claiming ∧ s'.claimed.length = s.claimed.length + 1 := by
  unfold step at hstep
  split at hstep
  case h_1 =>
    obtain ⟨rfl, -⟩ := by simpa using hstep
    exact .inl rfl
  case h_2 | h_3 =>
    obtain ⟨⟨after, progress⟩, hpush, heq⟩ := Option.map_eq_some_iff.mp hstep
    obtain ⟨rfl, -⟩ := Prod.mk.inj heq
    cases pushWith_effect hpush with
    | claim hpc =>
      subst hpc
      exact .inr ⟨rfl, length_claimed_claim⟩
    | _ => exact .inl rfl
  case h_4 | h_5 =>
    obtain ⟨⟨after, progress⟩, hpop, heq⟩ := Option.map_eq_some_iff.mp hstep
    obtain ⟨rfl, -⟩ := Prod.mk.inj heq
    cases popWith_effect hpop <;> exact .inl rfl
  case h_6 => cases hstep

/-- Only a push writes a slot. -/
theorem producing_of_write (h : slotTouch N k s call choice = .write) : call.producing := by
  cases call with
  | push pc => rfl
  | tryPush pc => rfl
  | pop pc | tryPop pc =>
    cases choice with
    | call method => cases h
    | access access =>
      cases pc <;> cases access <;> simp only [slotTouch, PopPc.slotTouch, reduceCtorEq] at h
      case read.go => split_ifs at h
  | idle => cases h

/-- Only a pop reads a slot. -/
theorem consuming_of_read (h : slotTouch N k s call choice = .read) : call.consuming := by
  cases call with
  | pop pc => rfl
  | tryPop pc => rfl
  | push pc | tryPush pc =>
    cases choice with
    | call method => cases h
    | access access =>
      rcases PushPc.slotTouch_cases N k pc access with hnone | ⟨_, _, _, rfl, rfl, hk⟩
      · exact absurd (hnone.symm.trans h) (by decide)
      · exact absurd ((if_pos hk).symm.trans h) (by decide)
  | idle => cases h

/-- Only a pop releases. -/
theorem consuming_of_releases {word : Word} (h : (access s call choice).Releases word) :
    call.consuming := by
  cases call with
  | pop pc => rfl
  | tryPop pc => rfl
  | push pc | tryPush pc =>
    cases choice with
    | call method => cases h
    | access access =>
      exfalso
      cases pc <;> cases access <;>
        simp only [RingBuffer.access, PushPc.access, Memory.Access.Releases] at h
      case compareExchange.go =>
        split_ifs at h
        · exact Bool.false_ne_true h.2
        · exact h
  | idle => cases h

end Roles

/-- The condition of `PublishCondition`; besides, one thread pops and never pushes, the others never
pop, and `head` does not wrap around. -/
structure TransferCondition (N : ℕ) (consumer : Tid) (p : Pool Tid (Shared α) (Call α))
    (label : Label Tid (Choice α)) : Prop extends PublishCondition N p label where
  pops : label.choice.startsPop → label.thread = consumer
  pushes : label.choice.startsPush → label.thread ≠ consumer
  noWrap : (p.threads label.thread).claiming → p.shared.claimed.length + 1 < 2 ^ 64

section Runs

variable [DecidableEq Tid] [Fintype Tid] {N k : ℕ} {consumer : Tid}
  {x : Pool Tid (Shared α) (Call α) × Trace Tid Word}

/-- The ring buffer with the accesses to its words and to slot `k`. -/
abbrev traced (N k : ℕ) (Tid α : Type) [DecidableEq Tid] [Fintype Tid] :
    System (Pool Tid (Shared α) (Call α) × Trace Tid Word) (Label Tid (Choice α)) :=
  tracing (system N Tid α) (stepEvent access (slotTouch N k))

/-- The roles of the threads, in the state and in the trace. -/
structure Roles (consumer : Tid) (p : Pool Tid (Shared α) (Call α)) (events : Trace Tid Word) :
    Prop where
  pops : ∀ t, (p.threads t).consuming → t = consumer
  pushes : ∀ t, (p.threads t).producing → t ≠ consumer
  reads : ∀ e ∈ events, e.touch = .read → e.thread = consumer
  writes : ∀ e ∈ events, e.touch = .write → e.thread ≠ consumer
  releases : ∀ e ∈ events, ∀ w, e.access.Releases w → e.thread = consumer

theorem roles (h : (traced N k Tid α).ReachableWhen
    (fun x label ↦ TransferCondition N consumer x.1 label) x) : Roles consumer x.1 x.2 := by
  refine h.invariant (P := fun x ↦ Roles consumer x.1 x.2) ?_ ?_
  · constructor
    all_goals
      intro _ hnever
      cases hnever
  · intro x label x' _ h hmeets hmove
    obtain ⟨hstep, hnote⟩ := System.recording_step hmove
    obtain ⟨moved, hlocal, hthreads⟩ := step_eq hstep
    have hevent {P : Event Tid Word → Prop} (hold : ∀ e ∈ x.2, P e)
        (hnew : P (stepEvent access (slotTouch N k) x.1 label x'.1)) : ∀ e ∈ x'.2, P e := by
      rw [hnote]
      intro e he
      rcases List.mem_append.mp he with he | he
      · exact hold e he
      · rw [List.mem_singleton.mp he]
        exact hnew
    refine ⟨fun t ht ↦ ?_, fun t ht ↦ ?_, hevent h.reads fun hread ↦ ?_,
      hevent h.writes fun hwrite ↦ ?_, hevent h.releases fun w hreleases ↦ ?_⟩
    · rw [hthreads] at ht
      by_cases hself : t = label.thread
      · rw [hself, update_self] at ht
        rw [hself]
        exact (consuming_of_step hlocal ht).elim (h.pops _) hmeets.pops
      · rw [update_of_ne hself] at ht
        exact h.pops t ht
    · rw [hthreads] at ht
      by_cases hself : t = label.thread
      · rw [hself, update_self] at ht
        rw [hself]
        exact (producing_of_step hlocal ht).elim (h.pushes _) hmeets.pushes
      · rw [update_of_ne hself] at ht
        exact h.pushes t ht
    · exact h.pops _ (consuming_of_read (s := x.1.shared) hread)
    · exact h.pushes _ (producing_of_write (s := x.1.shared) hwrite)
    · exact h.pops _ (consuming_of_releases hreleases)

/-- Fewer than `2 ^ 64` positions have been claimed. -/
theorem claimed_lt {p : Pool Tid (Shared α) (Call α)}
    (h : (system N Tid α).ReachableWhen (TransferCondition N consumer) p) :
    p.shared.claimed.length < 2 ^ 64 := by
  refine h.invariant (P := fun p ↦ p.shared.claimed.length < 2 ^ 64) (Nat.two_pow_pos 64) ?_
  intro p label p' _ hlt hmeets hmove
  obtain ⟨moved, hlocal, -⟩ := step_eq hmove
  rcases claimed_of_step hlocal with hsame | ⟨hclaiming, hmore⟩
  · rwa [hsame]
  · rw [hmore]
    exact hmeets.noWrap hclaiming

/-- The trace of a slot in every run. -/
theorem slotTrace (hN : PowerOfTwo N) (h : (traced N k Tid α).ReachableWhen
    (fun x label ↦ TransferCondition N consumer x.1 label) x) :
    SlotTrace N k x.1.shared x.1.threads x.2 := by
  refine h.invariant (P := fun x : Pool Tid (Shared α) (Call α) × Trace Tid Word ↦
    SlotTrace N k x.1.shared x.1.threads x.2) ?_ ?_
  · refine ⟨?_, .inl ?_, fun _ ↦ trivial⟩
    · intro _ _ _ _ _ hnever
      cases hnever
    · intro _ _ hnever
      cases hnever
  intro x label x' hrun htrace hmeets hmove
  obtain ⟨hstep, hnote⟩ := System.recording_step hmove
  obtain ⟨moved, hlocal, hthreads⟩ := step_eq hstep
  have hrun' : (system N Tid α).ReachableWhen (TransferCondition N consumer) x.1 :=
    hrun.of_recording
  have hbounded := bounded hN.lt (fun _ _ hmeets ↦ hmeets.toIndexCondition) hrun'
  have hconsistent := consistent hN (fun _ _ hmeets ↦ hmeets.toPublishCondition) hrun'
  have hroles := roles hrun
  have hlt := claimed_lt hrun'
  have hle := hbounded.le
  have hhead : x.1.shared.head = x.1.shared.claimed.length := by
    rw [hbounded.head, Nat.mod_eq_of_lt hlt]
  have htail : x.1.shared.tail = x.1.shared.popped.length := by
    rw [hbounded.tail, Nat.mod_eq_of_lt (hle.trans_lt hlt)]
  rw [hnote, hthreads]
  -- the slot about to be written is that of the claim
  have hentry (value : α) (currentHead claim : ℕ)
      (hentry : x.1.shared.claimed[claim]? = some (currentHead, value)) :
      currentHead % N = claim % N := by
    have hword : currentHead = claim % 2 ^ 64 := hconsistent.position claim _ hentry
    rw [hword, hN.mod_mod]
  -- nobody is about to write the slot that is read
  have hother (hreading : (x.1.threads label.thread).reading)
      (hslot : x.1.shared.popped.length % N = k) (t : Tid) (claim : ℕ)
      (hwriting : (x.1.threads t).writing = some claim) : claim % N ≠ k := by
    obtain ⟨hunpopped, hclaimed, -⟩ := (hconsistent.stored t).writing hwriting
    have hne : claim ≠ x.1.shared.popped.length := fun heq ↦
      hmeets.published hreading t (heq ▸ hwriting)
    have hroom := hbounded.room
    rw [← hslot]
    exact slot_ne (by omega) (by omega)
  have hstored := hconsistent.stored label.thread
  have hbound := hbounded.bound label.thread
  have haccess : (stepEvent access (slotTouch N k) x.1 label x'.1).access =
    access x.1.shared (x.1.threads label.thread) label.choice := rfl
  have htouch : (stepEvent access (slotTouch N k) x.1 label x'.1).touch =
    slotTouch N k x.1.shared (x.1.threads label.thread) label.choice := rfl
  -- a thread inside a pop is the consumer, which has made all reads
  have hreader (hconsuming : (x.1.threads label.thread).consuming) (e : Event Tid Word)
      (he : e ∈ x.2) (hread : e.touch = .read) : e.thread = label.thread :=
    (hroles.reads e he hread).trans (hroles.pops _ hconsuming).symm
  unfold step at hlocal
  split at hlocal
  case h_1 method hcall hchoice =>
    obtain ⟨hshared, rfl⟩ := by simpa using hlocal
    rw [hcall] at haccess htouch
    rw [← hshared]
    refine htrace.stay htouch (by rw [haccess]; exact id) rfl le_rfl ?_
    cases method <;> trivial
  case h_2 pc access hcall hchoice =>
    rw [hcall] at hstored
    rw [hcall, hchoice] at haccess htouch
    obtain ⟨⟨after, progress⟩, hpush, heq⟩ := Option.map_eq_some_iff.mp hlocal
    obtain ⟨rfl, rfl⟩ := Prod.mk.inj heq
    refine slotTrace_of_push (.inl rfl) htrace hcall hhead htail hle hlt (fun _ _ _ hpc ↦ ?_)
      haccess htouch hpush
    subst hpc
    exact hentry _ _ _ hstored.2.1
  case h_3 pc access hcall hchoice =>
    rw [hcall] at hstored
    rw [hcall, hchoice] at haccess htouch
    obtain ⟨⟨after, progress⟩, hpush, heq⟩ := Option.map_eq_some_iff.mp hlocal
    obtain ⟨rfl, rfl⟩ := Prod.mk.inj heq
    refine slotTrace_of_push (.inr rfl) htrace hcall hhead htail hle hlt (fun _ _ _ hpc ↦ ?_)
      haccess htouch hpush
    subst hpc
    exact hentry _ _ _ hstored.2.1
  case h_4 pc access hcall hchoice =>
    rw [hcall] at hbound hother hreader
    rw [hcall, hchoice] at haccess htouch
    obtain ⟨⟨after, progress⟩, hpop, heq⟩ := Option.map_eq_some_iff.mp hlocal
    obtain ⟨rfl, rfl⟩ := Prod.mk.inj heq
    exact slotTrace_of_pop (.inl rfl) htrace hbound htail (hN.and_sub_one _) (hreader rfl) hother
      haccess htouch hpop
  case h_5 pc access hcall hchoice =>
    rw [hcall] at hbound hother hreader
    rw [hcall, hchoice] at haccess htouch
    obtain ⟨⟨after, progress⟩, hpop, heq⟩ := Option.map_eq_some_iff.mp hlocal
    obtain ⟨rfl, rfl⟩ := Prod.mk.inj heq
    exact slotTrace_of_pop (.inr rfl) htrace hbound htail rfl (hreader rfl) hother haccess htouch
      hpop
  case h_6 => cases hlocal

/-- With one consumer, of two conflicting accesses to a slot by different threads the earlier one
happens before the later one exactly if it is the read of the consumer. A slot is overwritten only
after the reads before, and the write of a value is never ordered with the pop that reads it. -/
theorem slot_ordered_iff_read (hN : PowerOfTwo N) (h : (traced N k Tid α).ReachableWhen
      (fun x label ↦ TransferCondition N consumer x.1 label) x) {i j : ℕ} {e f : Event Tid Word}
    (hlt : i < j) (he : x.2[i]? = some e) (hf : x.2[j]? = some f) (hthreads : e.thread ≠ f.thread)
    (hconflict : Conflict e.touch f.touch) : HappensBefore x.2 i j ↔ e.touch = .read := by
  obtain ⟨htouch, htouch', hwrite⟩ := hconflict
  have hroles := roles h
  constructor
  · intro hpath
    by_contra hread
    have hwrites : e.touch = .write := by
      cases hkind : e.touch with
      | none => exact absurd hkind htouch
      | read => exact absurd hkind hread
      | write => rfl
    have hproducer := hroles.writes e (List.mem_of_getElem? he) hwrites
    refine hthreads (hpath.thread_eq he hf fun g hg hself w hreleases ↦ ?_).symm
    exact hproducer (hself ▸ hroles.releases g hg w hreleases)
  · intro hread
    refine (slotTrace hN h).ordered i j e f hlt he hf hread (hwrite.resolve_left ?_)
    rw [hread]
    decide

instance (p : Pool Tid (Shared α) (Call α)) (label : Label Tid (Choice α)) :
    Decidable (TransferCondition N consumer p label) :=
  decidable_of_iff
    (PublishCondition N p label ∧ (label.choice.startsPop → label.thread = consumer) ∧
      (label.choice.startsPush → label.thread ≠ consumer) ∧
      ((p.threads label.thread).claiming → p.shared.claimed.length + 1 < 2 ^ 64))
    ⟨fun ⟨h₁, h₂, h₃, h₄⟩ ↦ ⟨h₁, h₂, h₃, h₄⟩, fun ⟨h₁, h₂, h₃, h₄⟩ ↦ ⟨h₁, h₂, h₃, h₄⟩⟩

/-- `slot_ordered_iff_read` on a run in which thread 1 pops the value of thread 0, and thread 2
writes the slot again: only the read of thread 1 happens before the second write. -/
theorem slot_ordered_iff_read_reused :
    ∃ x : Pool (Fin 3) (Shared ℕ) (Call ℕ) × Trace (Fin 3) Word,
      x.1.shared.popped = [(0, some 7)] ∧ ¬ HappensBefore x.2 4 8 ∧ ¬ HappensBefore x.2 4 19 ∧
        HappensBefore x.2 8 19 := by
  obtain ⟨x, hrun, hpopped, hfirst, hread, hsecond⟩ := System.exists_reachableWhen_of_exec
    (M := traced 2 0 (Fin 3) ℕ) (fun x label ↦ TransferCondition 2 1 x.1 label)
    (P := fun x ↦ x.1.shared.popped = [(0, some 7)] ∧ x.2[4]? = some ⟨0, .none, .write⟩ ∧
      x.2[8]? = some ⟨1, .none, .read⟩ ∧ x.2[19]? = some ⟨2, .none, .write⟩)
    ([⟨0, .call (.push 7), none⟩] ++ List.replicate 4 ⟨0, .access .go, none⟩ ++
      [⟨1, .call .pop, none⟩] ++ List.replicate 4 ⟨1, .access .go, none⟩ ++
      [⟨0, .call (.push 8), none⟩] ++ List.replicate 4 ⟨0, .access .go, none⟩ ++
      [⟨2, .call (.tryPush 9), none⟩] ++ List.replicate 4 ⟨2, .access .go, none⟩) (by decide)
  have hordered {i j : ℕ} {e f : Event (Fin 3) Word} := slot_ordered_iff_read
    ⟨1, by decide, rfl⟩ hrun (i := i) (j := j) (e := e) (f := f)
  refine ⟨x, hpopped, ?_, ?_, ?_⟩
  · rw [hordered (by decide) hfirst hread (by decide) (by decide)]
    decide
  · rw [hordered (by decide) hfirst hsecond (by decide) (by decide)]
    decide
  · rw [hordered (by decide) hread hsecond (by decide) (by decide)]

end Runs

end SyncPrimitives.RingBuffer
