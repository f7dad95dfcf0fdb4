import SyncPrimitives.RingBuffer.Indices
import Mathlib.Data.List.Nodup

/-!
# Publication of the slots

A successful compare-and-exchange on `head` makes a position visible to the consumer before its slot
is written. `unpublished_read` is a run in which the consumer reads such a slot. Under
`PublishCondition`, with one consumer, no run does: the condition asks of every slot read that no
push is between its claim of that position and its slot write.

`Consistent` is the invariant on the history, the slots and the positions of the threads; there is
one lemma for each event, and `published_reads` collects what follows.
-/

set_option autoImplicit false
set_option relaxedAutoImplicit false

namespace SyncPrimitives.RingBuffer

open Concurrency Function

variable {Tid α : Type}

/-! ### Published values -/

/-- Claims take the positions in order. Pop number `i` returns the value that claim number `i` has
stored at the same position, so no value is returned by two pops; a value that has been read was
written before; a claim whose slot is still to be written has a slot different from that of every
later claim; every push that returned `Ok` is a claim of its own, and once as many pops have
succeeded as pushes, every such claim has been popped. -/
structure Published (N : ℕ) (p : Pool Tid (Shared α) (Call α)) : Prop where
  inOrder : ∀ (i : ℕ) (entry : ℕ × α), p.shared.claimed[i]? = some entry → entry.1 = i % 2 ^ 64
  returned : ∀ (i : ℕ) (entry : ℕ × MaybeUninit α), p.shared.popped[i]? = some entry →
    ∃ value, p.shared.claimed[i]? = some (entry.1, value) ∧ entry.2 = some value
  neverUnwritten : ∀ t, (p.threads t).holding →
    ∀ u, (p.threads u).writing ≠ some p.shared.popped.length
  neverDelayed : ∀ t i, (p.threads t).writing = some i →
    ∀ j, i < j → j < p.shared.claimed.length → j % N ≠ i % N
  atMostOnce : p.shared.pushed.Nodup ∧ ∀ i ∈ p.shared.pushed, i < p.shared.claimed.length
  exactlyOnce : p.shared.popped.length = p.shared.pushed.length →
    ∀ i ∈ p.shared.pushed, i < p.shared.popped.length

/-- Thread 0 claims position 0 in `push` and is preempted before the write; thread 1 pops. -/
def unpublishedRun : List (Label (Fin 2) (Choice ℕ)) :=
  [⟨0, .call (.push 7), none⟩, ⟨0, .access .go, none⟩, ⟨0, .access .go, none⟩,
    ⟨0, .access .go, none⟩,
    ⟨1, .call .pop, none⟩, ⟨1, .access .go, none⟩, ⟨1, .access .go, none⟩,
    ⟨1, .access .go, none⟩, ⟨1, .access .go, none⟩]

/-- One producer and one consumer reach a state in which `pop` has returned uninitialised memory. -/
theorem unpublished_read :
    ∃ p : Pool (Fin 2) (Shared ℕ) (Call ℕ), (system 2 (Fin 2) ℕ).Reachable p ∧ ¬ Published 2 p := by
  obtain ⟨p, hrun, hpopped⟩ := System.exists_reachableWhen_of_exec
    (M := system 2 (Fin 2) ℕ) (fun _ _ ↦ True)
    (P := fun p ↦ p.shared.popped = [(0, none)]) unpublishedRun (by decide)
  refine ⟨p, hrun, fun hpublished ↦ ?_⟩
  obtain ⟨value, -, hvalue⟩ := hpublished.returned 0 (0, none) (by rw [hpopped]; rfl)
  cases hvalue

/-! ### The invariant -/

/-- Two different positions less than `N` apart have different slots. -/
theorem slot_ne {N i j : ℕ} (hlt : i < j) (hnear : j < i + N) : j % N ≠ i % N := by
  intro h
  have hdvd : N ∣ j - i := Nat.dvd_of_mod_eq_zero (Nat.sub_mod_eq_zero_of_mod_eq h)
  have hle := Nat.le_of_dvd (Nat.sub_pos_of_lt hlt) hdvd
  omega

/-- An entry of a list with one more element is an entry of the list or the new element. -/
theorem getElem?_concat {β : Type} {l : List β} {x entry : β} {i : ℕ} :
    (l ++ [x])[i]? = some entry ↔ l[i]? = some entry ∨ (i = l.length ∧ x = entry) := by
  rcases lt_trichotomy i l.length with hlt | heq | hgt
  · rw [List.getElem?_append_left hlt]
    simp [hlt.ne]
  · subst heq
    simp
  · have hout : (l ++ [x])[i]? = none := by simp; omega
    have hout' : l[i]? = none := by simp; omega
    simp [hout, hout', hgt.ne']

/-- What a thread about to write knows: its claim is neither popped nor done. -/
def PushPc.Stored (s : Shared α) : PushPc α → Prop
  | .write value currentHead claim =>
    s.popped.length ≤ claim ∧ s.claimed[claim]? = some (currentHead, value) ∧ claim ∉ s.pushed
  | _ => True

/-- What a thread that has read a slot knows: the value is that of the oldest claim. -/
def PopPc.Stored (s : Shared α) : PopPc α → Prop
  | .compareExchange _ value =>
    ∃ position stored, s.claimed[s.popped.length]? = some (position, stored) ∧ value = some stored
  | _ => True

/-- What a position knows about the values. -/
def Call.Stored (s : Shared α) : Call α → Prop
  | .idle => True
  | .push pc => pc.Stored s
  | .tryPush pc => pc.Stored s
  | .pop pc => pc.Stored s
  | .tryPop pc => pc.Stored s

/-- Every claim is done or about to be written by exactly one thread, the slot of every claim that
is done and not yet popped holds its value, and the pops have returned the values of the oldest
claims. -/
structure Consistent (N : ℕ) (s : Shared α) (f : Tid → Call α) : Prop where
  position : ∀ (i : ℕ) (entry : ℕ × α), s.claimed[i]? = some entry → entry.1 = i % 2 ^ 64
  returned : ∀ (i : ℕ) (entry : ℕ × MaybeUninit α), s.popped[i]? = some entry →
    ∃ value, s.claimed[i]? = some (entry.1, value) ∧ entry.2 = some value
  nodup : s.pushed.Nodup
  pushed : ∀ i ∈ s.pushed, i < s.claimed.length
  done : ∀ i, i < s.claimed.length → i ∈ s.pushed ∨ ∃ u, (f u).writing = some i
  unique : ∀ u v i, (f u).writing = some i → (f v).writing = some i → u = v
  slot : ∀ (i : ℕ) (entry : ℕ × α), s.popped.length ≤ i → s.claimed[i]? = some entry →
    (∃ u, (f u).writing = some i) ∨ s.buffer (i % N) = some entry.2
  stored : ∀ u, (f u).Stored s
  written : ∀ u, (f u).holding → ∀ v, (f v).writing ≠ some s.popped.length

section Stored

variable {N claim : ℕ} {s : Shared α} {call : Call α}

theorem PushPc.Stored.writing {pc : PushPc α} (h : pc.Stored s)
    (hwriting : pc.writing = some claim) :
    s.popped.length ≤ claim ∧ claim < s.claimed.length ∧ claim ∉ s.pushed := by
  cases pc with
  | write value currentHead number =>
    obtain ⟨hle, hentry, hnot⟩ := h
    obtain rfl := Option.some.inj hwriting
    exact ⟨hle, (List.getElem?_eq_some_iff.mp hentry).1, hnot⟩
  | _ => cases hwriting

/-- The claim of a thread about to write is neither popped nor done. -/
theorem Call.Stored.writing (h : call.Stored s) (hwriting : call.writing = some claim) :
    s.popped.length ≤ claim ∧ claim < s.claimed.length ∧ claim ∉ s.pushed := by
  cases call with
  | push pc => exact PushPc.Stored.writing h hwriting
  | tryPush pc => exact PushPc.Stored.writing h hwriting
  | _ => cases hwriting

/-- A claim of another thread leaves what a position knows. -/
theorem Call.Stored.of_claim {value : α} (h : call.Stored s) : call.Stored (s.claim value) := by
  have hpush (pc : PushPc α) (hpc : pc.Stored s) : pc.Stored (s.claim value) := by
    cases pc with
    | write value currentHead number =>
      exact ⟨hpc.1, getElem?_concat.mpr (.inl hpc.2.1), hpc.2.2⟩
    | _ => trivial
  have hpop (pc : PopPc α) (hpc : pc.Stored s) : pc.Stored (s.claim value) := by
    cases pc with
    | compareExchange currentTail value =>
      obtain ⟨position, stored, hentry, hvalue⟩ := hpc
      exact ⟨position, stored, getElem?_concat.mpr (.inl hentry), hvalue⟩
    | _ => trivial
  cases call with
  | idle => trivial
  | push pc => exact hpush pc h
  | tryPush pc => exact hpush pc h
  | pop pc => exact hpop pc h
  | tryPop pc => exact hpop pc h

/-- The write of another claim leaves what a position knows. -/
theorem Call.Stored.of_write {value : α} {currentHead : ℕ} (h : call.Stored s)
    (hne : call.writing ≠ some claim) : call.Stored (s.write N value currentHead claim) := by
  have hpush (pc : PushPc α) (hpc : pc.Stored s) (hne : pc.writing ≠ some claim) :
      pc.Stored (s.write N value currentHead claim) := by
    cases pc with
    | write value currentHead number =>
      refine ⟨hpc.1, hpc.2.1, ?_⟩
      simp only [Shared.write, List.mem_append, List.mem_singleton, not_or]
      exact ⟨hpc.2.2, fun heq ↦ hne (congrArg some heq)⟩
    | _ => exact hpc
  cases call with
  | push pc => exact hpush pc h hne
  | tryPush pc => exact hpush pc h hne
  | _ => exact h

/-- A pop leaves what the positions know that have not read a slot. Assumes: the claim that is
popped is done. -/
theorem Call.Stored.of_release {value : MaybeUninit α} (h : call.Stored s)
    (hholding : call.holding = false) (hne : call.writing ≠ some s.popped.length) :
    call.Stored (s.release value) := by
  have hpush (pc : PushPc α) (hpc : pc.Stored s) (hne : pc.writing ≠ some s.popped.length) :
      pc.Stored (s.release value) := by
    cases pc with
    | write value currentHead number =>
      refine ⟨?_, hpc.2.1, hpc.2.2⟩
      rw [length_popped_release]
      exact Nat.lt_of_le_of_ne hpc.1 fun heq ↦ hne (congrArg some heq.symm)
    | _ => trivial
  have hpop (pc : PopPc α) (hpc : pc.holding = false) : pc.Stored (s.release value) := by
    cases pc with
    | compareExchange currentTail value => cases hpc
    | _ => trivial
  cases call with
  | idle => trivial
  | push pc => exact hpush pc h hne
  | tryPush pc => exact hpush pc h hne
  | pop pc => exact hpop pc hholding
  | tryPop pc => exact hpop pc hholding

end Stored

section Events

variable [DecidableEq Tid] {N : ℕ} {t : Tid} {s s' : Shared α} {f : Tid → Call α} {moved : Call α}

/-- A step that leaves the shared state, and neither starts nor ends a claim, keeps the invariant.
Assumes: the new position knows what it should, and a value is read only where nothing is still to
be written. -/
theorem consistent_of_quiet (h : Consistent N s f) (hbefore : (f t).writing = none)
    (hafter : moved.writing = none) (hstored : moved.Stored s)
    (hwritten : moved.holding → ∀ v, (f v).writing ≠ some s.popped.length) :
    Consistent N s (update f t moved) := by
  have hwriting (u : Tid) : (update f t moved u).writing = (f u).writing := by
    by_cases hu : u = t
    · rw [hu, update_self, hafter, hbefore]
    · rw [update_of_ne hu]
  refine { h with
    done := ?done, unique := ?unique, slot := ?slot, stored := ?stored, written := ?written }
  case done => simpa only [hwriting] using h.done
  case unique => simpa only [hwriting] using h.unique
  case slot => simpa only [hwriting] using h.slot
  case stored =>
    intro u
    by_cases hu : u = t
    · rw [hu, update_self]
      exact hstored
    · rw [update_of_ne hu]
      exact h.stored u
  case written =>
    simp only [hwriting]
    intro u
    by_cases hu : u = t
    · rw [hu, update_self]
      exact hwritten
    · rw [update_of_ne hu]
      exact h.written u

/-- A claim keeps the invariant. -/
theorem consistent_of_claim {value : α} (hb : Indexed N s f) (h : Consistent N s f)
    (hbefore : (f t).writing = none) (hafter : moved.writing = some s.claimed.length)
    (hstored : moved.Stored (s.claim value)) (hholding : moved.holding = false) :
    Consistent N (s.claim value) (update f t moved) := by
  have hfresh (u : Tid) : (f u).writing ≠ some s.claimed.length := fun hu ↦
    absurd ((h.stored u).writing hu).2.1 (lt_irrefl _)
  have hwriting (u : Tid) (i : ℕ) : (update f t moved u).writing = some i ↔
      (f u).writing = some i ∨ (u = t ∧ i = s.claimed.length) := by
    by_cases hu : u = t
    · rw [hu, update_self, hafter, hbefore]
      simp [eq_comm]
    · rw [update_of_ne hu]
      simp [hu]
  constructor
  case position =>
    intro i entry hentry
    rcases getElem?_concat.mp hentry with hold | ⟨rfl, rfl⟩
    · exact h.position i entry hold
    · exact hb.head
  case returned =>
    intro i entry hentry
    obtain ⟨value', hclaimed, hvalue⟩ := h.returned i entry hentry
    exact ⟨value', getElem?_concat.mpr (.inl hclaimed), hvalue⟩
  case nodup => exact h.nodup
  case pushed =>
    intro i hi
    rw [length_claimed_claim]
    exact (h.pushed i hi).trans (Nat.lt_succ_self _)
  case done =>
    intro i hi
    rw [length_claimed_claim] at hi
    simp only [hwriting]
    by_cases hnew : i = s.claimed.length
    · exact .inr ⟨t, .inr ⟨rfl, hnew⟩⟩
    · rcases h.done i (by omega) with hpushed | ⟨u, hu⟩
      · exact .inl hpushed
      · exact .inr ⟨u, .inl hu⟩
  case unique =>
    intro u v i hu hv
    rcases (hwriting u i).mp hu with hu | ⟨hut, hi⟩
    · rcases (hwriting v i).mp hv with hv | ⟨-, hi⟩
      · exact h.unique u v i hu hv
      · exact absurd (hi ▸ hu) (hfresh u)
    · rcases (hwriting v i).mp hv with hv | ⟨hvt, -⟩
      · exact absurd (hi ▸ hv) (hfresh v)
      · rw [hut, hvt]
  case slot =>
    intro i entry hi hentry
    simp only [hwriting]
    rcases getElem?_concat.mp hentry with hold | ⟨rfl, rfl⟩
    · rcases h.slot i entry hi hold with ⟨u, hu⟩ | hbuffer
      · exact .inl ⟨u, .inl hu⟩
      · exact .inr hbuffer
    · exact .inl ⟨t, .inr ⟨rfl, rfl⟩⟩
  case stored =>
    intro u
    by_cases hu : u = t
    · rw [hu, update_self]
      exact hstored
    · rw [update_of_ne hu]
      exact (h.stored u).of_claim
  case written =>
    intro u hu v hv
    have hne : u ≠ t := fun heq ↦ by
      rw [heq, update_self, hholding] at hu
      cases hu
    rw [update_of_ne hne] at hu
    rcases (hwriting v _).mp hv with hv | ⟨-, hlength⟩
    · exact h.written u hu v hv
    · exact absurd hlength (hb.lt_of_holding hu).ne

/-- The write of a slot keeps the invariant. -/
theorem consistent_of_write (hN : PowerOfTwo N) {claim currentHead : ℕ} {value : α}
    (hb : Indexed N s f) (h : Consistent N s f) (hbefore : (f t).writing = some claim)
    (hentry : s.claimed[claim]? = some (currentHead, value)) :
    Consistent N (s.write N value currentHead claim) (update f t .idle) := by
  obtain ⟨hunpopped, hclaimed, hundone⟩ := (h.stored t).writing hbefore
  have hposition : currentHead % N = claim % N := by
    have hword : currentHead = claim % 2 ^ 64 := h.position claim _ hentry
    rw [hword, hN.mod_mod]
  have hwriting (u : Tid) (i : ℕ) : (update f t .idle u).writing = some i ↔
      (f u).writing = some i ∧ i ≠ claim := by
    by_cases hu : u = t
    · rw [hu, update_self, hbefore]
      simp [Call.writing, eq_comm]
    · rw [update_of_ne hu]
      exact ⟨fun hi ↦ ⟨hi, fun heq ↦ hu (h.unique u t claim (heq ▸ hi) hbefore)⟩, fun hi ↦ hi.1⟩
  refine { h with
    nodup := ?nodup, pushed := ?pushed, done := ?done, unique := ?unique, slot := ?slot
    stored := ?stored, written := ?written }
  case nodup =>
    show (s.pushed ++ [claim]).Nodup
    rw [← List.concat_eq_append]
    exact h.nodup.concat hundone
  case pushed =>
    intro i hi
    rcases List.mem_append.mp hi with hi | hi
    · exact h.pushed i hi
    · rw [List.mem_singleton.mp hi]
      exact hclaimed
  case done =>
    intro i hi
    by_cases hnew : i = claim
    · exact .inl (by simp [Shared.write, hnew])
    · rcases h.done i hi with hpushed | ⟨u, hu⟩
      · exact .inl (by simp [Shared.write, hpushed])
      · exact .inr ⟨u, (hwriting u i).mpr ⟨hu, hnew⟩⟩
  case unique =>
    intro u v i hu hv
    exact h.unique u v i ((hwriting u i).mp hu).1 ((hwriting v i).mp hv).1
  case slot =>
    intro i entry (hi : s.popped.length ≤ i) (hin : s.claimed[i]? = some entry)
    show _ ∨ update s.buffer (currentHead % N) (some value) (i % N) = some entry.2
    by_cases hnew : i = claim
    · rw [hnew, hentry] at hin
      obtain rfl := Option.some.inj hin
      rw [hnew, hposition, update_self]
      exact .inr rfl
    · rcases h.slot i entry hi hin with ⟨u, hu⟩ | hbuffer
      · exact .inl ⟨u, (hwriting u i).mpr ⟨hu, hnew⟩⟩
      · have hlt : i < s.claimed.length := (List.getElem?_eq_some_iff.mp hin).1
        have hroom := hb.room
        -- both claims are among the at most `N` that have not been popped
        have hslot : i % N ≠ currentHead % N := by
          rw [hposition]
          rcases Nat.lt_or_gt_of_ne hnew with hless | hmore
          · exact (slot_ne hless (by omega)).symm
          · exact slot_ne hmore (by omega)
        rw [update_of_ne hslot]
        exact .inr hbuffer
  case stored =>
    intro u
    by_cases hu : u = t
    · rw [hu, update_self]
      trivial
    · rw [update_of_ne hu]
      exact (h.stored u).of_write fun heq ↦ hu (h.unique u t claim heq hbefore)
  case written =>
    intro u hu v hv
    have hne : u ≠ t := fun heq ↦ by
      rw [heq, update_self] at hu
      cases hu
    rw [update_of_ne hne] at hu
    exact h.written u hu v ((hwriting v _).mp hv).1

/-- A successful pop keeps the invariant. Assumes: no other thread has loaded `tail`. -/
theorem consistent_of_release {value : MaybeUninit α} (hb : Indexed N s f) (h : Consistent N s f)
    (hholding : (f t).holding) (hothers : ∀ u, u ≠ t → (f u).caching = false)
    {position : ℕ} {stored : α}
    (hentry : s.claimed[s.popped.length]? = some (position, stored))
    (hvalue : value = some stored) :
    Consistent N (s.release value) (update f t .idle) := by
  have hconsuming := Call.consuming_of_holding hholding
  have hwriting (u : Tid) (i : ℕ) :
      (update f t .idle u).writing = some i ↔ (f u).writing = some i := by
    by_cases hu : u = t
    · rw [hu, update_self, Call.writing_of_consuming hconsuming]
      simp [Call.writing]
    · rw [update_of_ne hu]
  refine { h with
    returned := ?returned, done := ?done, unique := ?unique, slot := ?slot, stored := ?stored
    written := ?written }
  case returned =>
    intro i entry hin
    rcases getElem?_concat.mp hin with hold | ⟨rfl, rfl⟩
    · exact h.returned i entry hold
    · have htail : s.tail = position := hb.tail.trans (h.position _ _ hentry).symm
      refine ⟨stored, ?_, hvalue⟩
      show s.claimed[s.popped.length]? = some (s.tail, stored)
      rw [hentry, htail]
  case done =>
    intro i hi
    simp only [hwriting]
    exact h.done i hi
  case unique => simpa only [hwriting] using h.unique
  case slot =>
    intro i entry hi hin
    rw [length_popped_release] at hi
    simp only [hwriting]
    exact h.slot i entry (by omega) hin
  case stored =>
    intro u
    by_cases hu : u = t
    · rw [hu, update_self]
      trivial
    · rw [update_of_ne hu]
      refine (h.stored u).of_release ?_ (h.written t hholding u)
      exact Bool.eq_false_iff.mpr fun hheld ↦ absurd (Call.caching_of_holding hheld) (by
        rw [hothers u hu]
        exact Bool.false_ne_true)
  case written =>
    intro u hu
    have hne : u ≠ t := fun heq ↦ by
      rw [heq, update_self] at hu
      cases hu
    rw [update_of_ne hne] at hu
    have hcaching := Call.caching_of_holding hu
    rw [hothers u hne] at hcaching
    cases hcaching

/-- A step of `push` or `try_push` keeps the invariant. -/
theorem consistent_of_pushWith (hN : PowerOfTwo N) {position : PushPc α → Call α}
    (hposition : position = .push ∨ position = .tryPush) {retry : Bool} {pc : PushPc α}
    {access : Access} {progress : Progress (PushPc α) (Except α Unit)} (hb : Indexed N s f)
    (h : Consistent N s f) (hcall : f t = position pc)
    (hstep : pushWith N s retry pc access = some (s', progress)) :
    Consistent N s' (update f t (progress.call position)) := by
  have hwriting (pc : PushPc α) : (position pc).writing = pc.writing := by
    rcases hposition with rfl | rfl <;> rfl
  have hstored (s : Shared α) (pc : PushPc α) : (position pc).Stored s ↔ pc.Stored s := by
    rcases hposition with rfl | rfl <;> rfl
  have hholding (pc : PushPc α) : (position pc).holding = false := by
    rcases hposition with rfl | rfl <;> rfl
  have hpc : pc.Stored s := (hstored s pc).mp (hcall ▸ h.stored t)
  cases pushWith_effect hstep with
  | @goOn pc' hbefore hafter =>
    refine consistent_of_quiet h (by rw [hcall, hwriting, hbefore])
      ((hwriting _).trans hafter) ?_ ?_
    · refine (hstored _ _).mpr ?_
      cases pc' with
      | write value currentHead claim => cases hafter
      | _ => trivial
    · simp [Progress.call, hholding]
  | fail hbefore =>
    exact consistent_of_quiet h (by rw [hcall, hwriting, hbefore]) rfl trivial (fun h ↦ by cases h)
  | @claim value hpc =>
    subst hpc
    have hfresh : s.claimed.length ∉ s.pushed := fun hin ↦ absurd (h.pushed _ hin) (lt_irrefl _)
    refine consistent_of_claim hb h (by rw [hcall, hwriting]; rfl) (hwriting _) ?_ (hholding _)
    exact (hstored _ _).mpr ⟨hb.le, getElem?_concat.mpr (.inr ⟨rfl, rfl⟩), hfresh⟩
  | @write value currentHead claim hpc' =>
    subst hpc'
    exact consistent_of_write hN hb h (by rw [hcall, hwriting]; rfl) hpc.2.1

/-- A step of `pop` or `try_pop` keeps the invariant. Assumes: it compares `tail` only while no
other thread has loaded it, and a slot is read only when the push that claimed its position has
written it. -/
theorem consistent_of_popWith (hN : PowerOfTwo N) {position : PopPc α → Call α}
    (hposition : position = .pop ∨ position = .tryPop) {slot : ℕ → ℕ}
    (hslot : ∀ currentTail, slot currentTail = currentTail % N) {retry : Bool} {pc : PopPc α}
    {access : Access} {progress : Progress (PopPc α) (Option (MaybeUninit α))}
    (hb : Indexed N s f) (h : Consistent N s f) (hcall : f t = position pc)
    (hothers : pc.holding → ∀ u, u ≠ t → (f u).caching = false)
    (hpublished : pc.reading → ∀ u, (f u).writing ≠ some s.popped.length)
    (hstep : popWith s slot retry pc access = some (s', progress)) :
    Consistent N s' (update f t (progress.call position)) := by
  have hwriting (pc : PopPc α) : (position pc).writing = none := by
    rcases hposition with rfl | rfl <;> rfl
  have hstored (s : Shared α) (pc : PopPc α) : (position pc).Stored s ↔ pc.Stored s := by
    rcases hposition with rfl | rfl <;> rfl
  have hbound (pc : PopPc α) : (position pc).Bound N s ↔ pc.Bound s := by
    rcases hposition with rfl | rfl <;> rfl
  have hholding (pc : PopPc α) : (position pc).holding = pc.holding := by
    rcases hposition with rfl | rfl <;> rfl
  have hpc : pc.Stored s := (hstored s pc).mp (hcall ▸ h.stored t)
  have hindex : pc.Bound s := (hbound pc).mp (hcall ▸ hb.bound t)
  have hbefore : (f t).writing = none := by rw [hcall, hwriting]
  cases popWith_effect hstep with
  | @goOn pc' hafter =>
    refine consistent_of_quiet h hbefore (hwriting _) ((hstored _ _).mpr ?_) ?_
    · cases pc' with
      | compareExchange currentTail value => cases hafter
      | _ => trivial
    · simp [Progress.call, hholding, hafter]
  | fail hfailure => exact consistent_of_quiet h hbefore rfl trivial (fun h ↦ by cases h)
  | @read currentTail hpc' =>
    subst hpc'
    obtain ⟨htail, hlt⟩ := hindex
    refine consistent_of_quiet h hbefore (hwriting _) ((hstored _ _).mpr ?_) fun _ ↦ hpublished rfl
    have hentry : s.claimed[s.popped.length]? = some s.claimed[s.popped.length] :=
      List.getElem?_eq_getElem hlt
    have hvalue : s.buffer (slot currentTail) = some s.claimed[s.popped.length].2 := by
      rw [hslot, htail, hb.tail, hN.mod_mod]
      rcases h.slot _ _ le_rfl hentry with ⟨u, hu⟩ | hbuffer
      · exact absurd hu (hpublished rfl u)
      · exact hbuffer
    exact ⟨_, _, hentry, hvalue⟩
  | @release value hpc' =>
    subst hpc'
    obtain ⟨claimedAt, stored, hentry, hvalue⟩ := hpc
    exact consistent_of_release hb h (by rw [hcall, hholding]; rfl) (hothers rfl) hentry hvalue

end Events

/-! ### Runs -/

/-- The condition on a step of a run with one consumer: the condition on the indices, and a slot is
read only when the push that claimed its position has written it. -/
structure PublishCondition (N : ℕ) (p : Pool Tid (Shared α) (Call α))
    (label : Label Tid (Choice α)) : Prop extends IndexCondition N p label where
  published : (p.threads label.thread).reading →
    ∀ u, (p.threads u).writing ≠ some p.shared.popped.length

section Runs

variable [DecidableEq Tid] [Fintype Tid] {N : ℕ}

/-- One step keeps the invariant. Assumes: `tail` is compared only while no other thread has loaded
it, and a slot is read only when the push that claimed its position has written it. -/
theorem consistent_step (hN : PowerOfTwo N) {p p' : Pool Tid (Shared α) (Call α)}
    {label : Label Tid (Choice α)} (hb : Indexed N p.shared p.threads)
    (h : Consistent N p.shared p.threads)
    (hothers : (p.threads label.thread).holding →
      ∀ u, u ≠ label.thread → (p.threads u).caching = false)
    (hpublished : (p.threads label.thread).reading →
      ∀ u, (p.threads u).writing ≠ some p.shared.popped.length)
    (hmove : (system N Tid α).step p label = some p') : Consistent N p'.shared p'.threads := by
  obtain ⟨moved, hstep, hthreads⟩ := step_eq hmove
  rw [hthreads]
  unfold step at hstep
  split at hstep
  case h_1 method hcall hchoice =>
    obtain ⟨hshared, rfl⟩ := by simpa using hstep
    rw [← hshared]
    refine consistent_of_quiet h (by rw [hcall]; rfl) ?_ ?_ ?_
    · cases method <;> rfl
    · cases method <;> trivial
    · cases method <;> exact fun h ↦ by cases h
  case h_2 pc access hcall hchoice =>
    obtain ⟨⟨after, progress⟩, hpush, heq⟩ := Option.map_eq_some_iff.mp hstep
    obtain ⟨rfl, rfl⟩ := Prod.mk.inj heq
    exact consistent_of_pushWith hN (.inl rfl) hb h hcall hpush
  case h_3 pc access hcall hchoice =>
    obtain ⟨⟨after, progress⟩, hpush, heq⟩ := Option.map_eq_some_iff.mp hstep
    obtain ⟨rfl, rfl⟩ := Prod.mk.inj heq
    exact consistent_of_pushWith hN (.inr rfl) hb h hcall hpush
  case h_4 pc access hcall hchoice =>
    rw [hcall] at hothers hpublished
    obtain ⟨⟨after, progress⟩, hpop, heq⟩ := Option.map_eq_some_iff.mp hstep
    obtain ⟨rfl, rfl⟩ := Prod.mk.inj heq
    exact consistent_of_popWith hN (.inl rfl) hN.and_sub_one hb h hcall hothers hpublished hpop
  case h_5 pc access hcall hchoice =>
    rw [hcall] at hothers hpublished
    obtain ⟨⟨after, progress⟩, hpop, heq⟩ := Option.map_eq_some_iff.mp hstep
    obtain ⟨rfl, rfl⟩ := Prod.mk.inj heq
    exact consistent_of_popWith hN (.inr rfl) (fun _ ↦ rfl) hb h hcall hothers hpublished hpop
  case h_6 => cases hstep

omit [DecidableEq Tid] [Fintype Tid] in
/-- The invariant holds of a new ring buffer. -/
theorem consistent_new : Consistent N (new Tid α).shared (new Tid α).threads := by
  constructor
  all_goals simp [new, Shared.new, Call.Stored, Call.holding, Call.writing]

/-- The invariant holds in every state of a run under the condition. -/
theorem consistent (hN : PowerOfTwo N)
    {ok : Pool Tid (Shared α) (Call α) → Label Tid (Choice α) → Prop}
    (hok : ∀ p label, ok p label → PublishCondition N p label) {p : Pool Tid (Shared α) (Call α)}
    (h : (system N Tid α).ReachableWhen ok p) : Consistent N p.shared p.threads := by
  refine h.invariant (P := fun p ↦ Consistent N p.shared p.threads) consistent_new ?_
  intro p label p' hrun hconsistent hmeets hmove
  have hb := bounded hN.lt (fun p label h ↦ (hok p label h).toIndexCondition) hrun
  exact consistent_step hN hb.indexed hconsistent hb.caching_of_holding (hok _ _ hmeets).published
    hmove

/-- In every run under the condition the values are published. -/
theorem published_reads (hN : PowerOfTwo N) {p : Pool Tid (Shared α) (Call α)}
    (h : (system N Tid α).ReachableWhen (PublishCondition N) p) : Published N p := by
  have hb := bounded hN.lt (fun _ _ h ↦ h.toIndexCondition) h
  have hc := consistent hN (fun _ _ h ↦ h) h
  refine {
    inOrder := hc.position
    returned := hc.returned
    neverUnwritten := hc.written
    neverDelayed := ?neverDelayed
    atMostOnce := ⟨hc.nodup, hc.pushed⟩
    exactlyOnce := ?exactlyOnce }
  case neverDelayed =>
    intro t i hwriting j hlt hj
    have hunpopped := ((hc.stored t).writing hwriting).1
    have hroom := hb.room
    exact slot_ne hlt (by omega)
  case exactlyOnce =>
    intro hlength i hi
    have hsubset : List.range p.shared.popped.length ⊆ p.shared.pushed := by
      intro k hk
      have hk := List.mem_range.mp hk
      rcases hc.done k (hk.trans_le hb.le) with hpushed | ⟨u, hu⟩
      · exact hpushed
      · have hunpopped := ((hc.stored u).writing hu).1
        omega
    have hperm := (List.nodup_range.subperm hsubset).perm_of_length_le (by simp [hlength])
    exact List.mem_range.mp (hperm.mem_iff.mpr hi)

instance (p : Pool Tid (Shared α) (Call α)) (label : Label Tid (Choice α)) :
    Decidable (PublishCondition N p label) :=
  decidable_of_iff
    (IndexCondition N p label ∧ ((p.threads label.thread).reading →
      ∀ u, (p.threads u).writing ≠ some p.shared.popped.length))
    ⟨fun ⟨h₁, h₂⟩ ↦ ⟨h₁, h₂⟩, fun ⟨h₁, h₂⟩ ↦ ⟨h₁, h₂⟩⟩

/-- `published_reads` on a run in which thread 0 pushes, thread 2 claims the next position, and the
consumer 1 pops the first value. -/
theorem published_reads_two_producers :
    ∃ p : Pool (Fin 3) (Shared ℕ) (Call ℕ), p.shared.popped = [(0, some 7)] ∧ Published 2 p := by
  obtain ⟨p, hrun, hpopped⟩ := System.exists_reachableWhen_of_exec
    (M := system 2 (Fin 3) ℕ) (PublishCondition 2)
    (P := fun p ↦ p.shared.popped = [(0, some 7)])
    [⟨0, .call (.push 7), none⟩, ⟨0, .access .go, none⟩, ⟨0, .access .go, none⟩,
      ⟨0, .access .go, none⟩, ⟨0, .access .go, none⟩,
      ⟨2, .call (.tryPush 8), none⟩, ⟨2, .access .go, none⟩, ⟨2, .access .go, none⟩,
      ⟨2, .access .go, none⟩,
      ⟨1, .call .pop, none⟩, ⟨1, .access .go, none⟩, ⟨1, .access .go, none⟩,
      ⟨1, .access .go, none⟩, ⟨1, .access .go, none⟩] (by decide)
  exact ⟨p, hpopped, published_reads ⟨1, by decide, rfl⟩ hrun⟩

end Runs

end SyncPrimitives.RingBuffer
