import SyncPrimitives.Concurrency.Runs
import Mathlib.Data.Nat.Basic
import Mathlib.Logic.Function.Basic
import Mathlib.Logic.Relation

/-!
# Happens-before and data races

A step of a program accesses at most one atomic word, with the orderings the source gives, and may
touch a cell that is not atomic. The events of a run are kept in a `Trace`. The interleaving is the
modification order of every word, and an access reads the latest value of its word.

Two events of one thread are in program order. A releasing access synchronizes with a later
acquiring access to the same word if no plain store to the word lies between them: what lies between
continues the release sequence (`Synchronizes`). Happens-before is the transitive closure of the
two. Two touches by different threads, one of them a write, race unless the earlier one happens
before the later one (`RaceFree`).

`Learned` are the events that happen before whatever a thread does next, and `Published` those that
a thread learns when it next acquires a word. The lemmas on how one more event changes the two are
all that is needed of happens-before below.

A `Hold` says what a thread may do with the cell. `Move` lists what an event may do to the holds:
taking a hold needs an acquiring access to the lock word, giving it up a releasing one, a touch
needs a hold, and only the holder for writing may overwrite the word by a plain store. A program all
of whose steps are such moves has no data race on the cell (`raceFree`).
-/

set_option autoImplicit false
set_option relaxedAutoImplicit false

namespace SyncPrimitives.Concurrency.Memory

open Function Relation

/-- What a step does to the atomic words. A failed compare-and-exchange is a load. -/
inductive Access (Word : Type*)
  | none
  | load (word : Word) (acquire : Bool)
  | store (word : Word) (release : Bool)
  | rmw (word : Word) (acquire release : Bool)
  deriving DecidableEq

namespace Access

variable {Word : Type*}

/-- The access acquires what has been released to a word. -/
def Acquires : Access Word → Word → Prop
  | .load word acquire, w => word = w ∧ acquire = true
  | .rmw word acquire _, w => word = w ∧ acquire = true
  | _, _ => False

/-- The access releases to a word. -/
def Releases : Access Word → Word → Prop
  | .store word release, w => word = w ∧ release = true
  | .rmw word _ release, w => word = w ∧ release = true
  | _, _ => False

/-- The access overwrites a word without reading it, which ends every release sequence there. -/
def Stores : Access Word → Word → Prop
  | .store word _, w => word = w
  | _, _ => False

end Access

/-- What a step does to the cell. -/
inductive Touch
  | none
  | read
  | write
  deriving DecidableEq

/-- A step of a thread, as the memory sees it. -/
structure Event (Tid Word : Type*) where
  thread : Tid
  access : Access Word
  touch : Touch
  deriving DecidableEq

/-- The events of a run, the earliest first. -/
abbrev Trace (Tid Word : Type*) := List (Event Tid Word)

section Orders

variable {Tid Word : Type*} (events : Trace Tid Word)

/-- Two events of one thread. -/
def ProgramOrder (i j : ℕ) : Prop :=
  i < j ∧ ∃ e f, events[i]? = some e ∧ events[j]? = some f ∧ e.thread = f.thread

/-- A release, and an acquire that reads from its release sequence. -/
def Synchronizes (i j : ℕ) : Prop :=
  i < j ∧ ∃ e f w, events[i]? = some e ∧ events[j]? = some f ∧ e.access.Releases w ∧
    f.access.Acquires w ∧ ∀ k g, i < k → k < j → events[k]? = some g → ¬ g.access.Stores w

/-- An edge of happens-before. -/
def Edge (i j : ℕ) : Prop := ProgramOrder events i j ∨ Synchronizes events i j

/-- Happens-before. -/
def HappensBefore : ℕ → ℕ → Prop := TransGen (Edge events)

/-- Touches of which one is a write. -/
def Conflict (a b : Touch) : Prop := a ≠ .none ∧ b ≠ .none ∧ (a = .write ∨ b = .write)

instance (a b : Touch) : Decidable (Conflict a b) := inferInstanceAs (Decidable (_ ∧ _))

/-- Of any two conflicting touches by different threads, the earlier one happens before the later
one. -/
def RaceFree : Prop :=
  ∀ i j e f, i < j → events[i]? = some e → events[j]? = some f → e.thread ≠ f.thread →
    Conflict e.touch f.touch → HappensBefore events i j

/-- The events that happen before whatever a thread does next. -/
def Learned (t : Tid) (i : ℕ) : Prop :=
  ∃ k f, events[k]? = some f ∧ f.thread = t ∧ ReflTransGen (Edge events) i k

/-- The events that a thread learns when it acquires a word. -/
def Published (w : Word) (i : ℕ) : Prop :=
  ∃ k f, events[k]? = some f ∧ f.access.Releases w ∧ ReflTransGen (Edge events) i k ∧
    ∀ j g, k < j → events[j]? = some g → ¬ g.access.Stores w

end Orders

/-- Nothing happens before the first event of a thread unless that event acquires. -/
theorem not_happensBefore_of_first {Tid Word : Type*} {events : Trace Tid Word}
    {f : Event Tid Word} {i j : ℕ} (hf : events[j]? = some f)
    (hfirst : ∀ e ∈ events.take j, e.thread ≠ f.thread) (haccess : ∀ w, ¬ f.access.Acquires w) :
    ¬ HappensBefore events i j := by
  intro hpath
  obtain ⟨k, -, hedge⟩ := TransGen.tail'_iff.mp hpath
  rcases hedge with ⟨hlt, e, f', he, hf', hthread⟩ | ⟨-, e, f', w, he, hf', -, hacquires, -⟩
  · obtain rfl := Option.some.inj (hf.symm.trans hf')
    refine hfirst e (List.mem_of_getElem? (i := k) ?_) hthread
    rw [List.getElem?_take_of_lt hlt, he]
  · obtain rfl := Option.some.inj (hf.symm.trans hf')
    exact haccess w hacquires

/-- The events of a thread that never releases happen before its own events only. -/
theorem HappensBefore.thread_eq {Tid Word : Type*} {events : Trace Tid Word} {e f : Event Tid Word}
    {i j : ℕ} (h : HappensBefore events i j) (he : events[i]? = some e)
    (hf : events[j]? = some f)
    (hreleases : ∀ g ∈ events, g.thread = e.thread → ∀ w, ¬ g.access.Releases w) :
    f.thread = e.thread := by
  have hedge {k m : ℕ} {g g' : Event Tid Word} (hg : events[k]? = some g)
      (hg' : events[m]? = some g') (hthread : g.thread = e.thread) (hkm : Edge events k m) :
      g'.thread = e.thread := by
    rcases hkm with ⟨-, a, b, ha, hb, hsame⟩ | ⟨-, a, b, w, ha, -, hrelease, -⟩
    · rw [Option.some.inj (hg'.symm.trans hb), ← hsame, Option.some.inj (ha.symm.trans hg), hthread]
    · rw [Option.some.inj (ha.symm.trans hg)] at hrelease
      exact absurd hrelease (hreleases g (List.mem_of_getElem? hg) hthread w)
  induction h generalizing f with
  | single hij => exact hedge he hf rfl hij
  | @tail k m _ hkm ih =>
    obtain ⟨g, hg⟩ : ∃ g, events[k]? = some g := by
      rcases hkm with ⟨-, a, b, ha, -⟩ | ⟨-, a, b, w, ha, -⟩
      · exact ⟨a, ha⟩
      · exact ⟨a, ha⟩
    exact hedge hg hf (ih hg) hkm

/-! ### One more event -/

section Append

variable {Tid Word : Type*} {events : Trace Tid Word} {e f : Event Tid Word} {t : Tid} {w : Word}
  {i j : ℕ}

theorem getElem?_append_of_some (h : events[i]? = some f) : (events ++ [e])[i]? = some f := by
  obtain ⟨hlt, -⟩ := List.getElem?_eq_some_iff.mp h
  rw [List.getElem?_append_left hlt, h]

theorem getElem?_length : (events ++ [e])[events.length]? = some e := by
  rw [List.getElem?_append_right le_rfl, Nat.sub_self]
  rfl

/-- A position of the longer events is a position of the shorter one, or it is the new event. -/
theorem getElem?_append_cases (h : (events ++ [e])[i]? = some f) :
    events[i]? = some f ∨ i = events.length ∧ f = e := by
  by_cases hlt : i < events.length
  · rw [List.getElem?_append_left hlt] at h
    exact .inl h
  · have hle := not_lt.mp hlt
    obtain ⟨hbound, -⟩ := List.getElem?_eq_some_iff.mp h
    rw [List.length_append, List.length_singleton] at hbound
    have hlast : i = events.length := by omega
    rw [hlast, getElem?_length] at h
    exact .inr ⟨hlast, (Option.some.inj h).symm⟩

theorem lt_length_of_some (h : events[i]? = some f) : i < events.length :=
  (List.getElem?_eq_some_iff.mp h).1

/-- The edges of a trace stay. -/
theorem Edge.append (h : Edge events i j) : Edge (events ++ [e]) i j := by
  rcases h with ⟨hlt, a, b, ha, hb, hthread⟩ | ⟨hlt, a, b, w, ha, hb, hreleases, hacquires, hkeeps⟩
  · exact .inl ⟨hlt, a, b, getElem?_append_of_some ha, getElem?_append_of_some hb, hthread⟩
  · refine .inr ⟨hlt, a, b, w, getElem?_append_of_some ha, getElem?_append_of_some hb, hreleases,
      hacquires, fun k g hik hkj hg ↦ ?_⟩
    have hj := lt_length_of_some hb
    rcases getElem?_append_cases hg with hold | ⟨hlast, -⟩
    · exact hkeeps k g hik hkj hold
    · omega

theorem reflTransGen_append (h : ReflTransGen (Edge events) i j) :
    ReflTransGen (Edge (events ++ [e])) i j :=
  h.lift id fun _ _ ↦ Edge.append

theorem HappensBefore.append (h : HappensBefore events i j) : HappensBefore (events ++ [e]) i j :=
  h.lift id fun _ _ ↦ Edge.append

/-- What a thread has learned it keeps. -/
theorem Learned.append (h : Learned events t i) : Learned (events ++ [e]) t i := by
  obtain ⟨k, f, hf, hthread, hpath⟩ := h
  exact ⟨k, f, getElem?_append_of_some hf, hthread, reflTransGen_append hpath⟩

/-- What is published stays published as long as the word is not overwritten by a plain store. -/
theorem Published.append (h : Published events w i) (hkeeps : ¬ e.access.Stores w) :
    Published (events ++ [e]) w i := by
  obtain ⟨k, f, hf, hreleases, hpath, hlater⟩ := h
  refine ⟨k, f, getElem?_append_of_some hf, hreleases, reflTransGen_append hpath,
    fun j g hkj hg ↦ ?_⟩
  rcases getElem?_append_cases hg with hold | ⟨-, rfl⟩
  · exact hlater j g hkj hold
  · exact hkeeps

/-- A thread has learned its own events. -/
theorem learned_of_thread (h : events[i]? = some f) : Learned events f.thread i :=
  ⟨i, f, h, rfl, .refl⟩

/-- What a thread has learned happens before its next event. -/
theorem Learned.happensBefore (h : Learned events e.thread i) :
    HappensBefore (events ++ [e]) i events.length := by
  obtain ⟨k, f, hf, hthread, hpath⟩ := h
  exact TransGen.tail' (reflTransGen_append hpath)
    (.inl ⟨lt_length_of_some hf, f, e, getElem?_append_of_some hf, getElem?_length, hthread⟩)

/-- A release publishes what its thread has learned. -/
theorem Learned.publish (h : Learned events e.thread i) (hreleases : e.access.Releases w) :
    Published (events ++ [e]) w i := by
  refine ⟨events.length, e, getElem?_length, hreleases, h.happensBefore.to_reflTransGen,
    fun j g hlt hg ↦ ?_⟩
  have hbound := lt_length_of_some hg
  rw [List.length_append, List.length_singleton] at hbound
  omega

/-- An acquire learns what is published. -/
theorem Published.learn (h : Published events w i) (hacquires : e.access.Acquires w) :
    Learned (events ++ [e]) e.thread i := by
  obtain ⟨k, f, hf, hreleases, hpath, hlater⟩ := h
  refine ⟨events.length, e, getElem?_length, rfl, (reflTransGen_append hpath).tail (.inr
    ⟨lt_length_of_some hf, f, e, w, getElem?_append_of_some hf, getElem?_length, hreleases,
      hacquires, fun m g hkm hlt hg ↦ ?_⟩)⟩
  rcases getElem?_append_cases hg with hold | ⟨hlast, -⟩
  · exact hlater m g hkm hold
  · omega

end Append

/-! ### All reads of the cell -/

section Reads

variable {Tid Word : Type*} {events : Trace Tid Word} {e : Event Tid Word} {t : Tid} {w : Word}

/-- A thread has learned all reads of the cell. -/
def ReadsLearned (events : Trace Tid Word) (t : Tid) : Prop :=
  ∀ i f, events[i]? = some f → f.touch = .read → Learned events t i

/-- All reads of the cell are published at a word. -/
def ReadsPublished (events : Trace Tid Word) (w : Word) : Prop :=
  ∀ i f, events[i]? = some f → f.touch = .read → Published events w i

/-- A read of the longer events is a read of the shorter ones if the new event is none. -/
theorem getElem?_of_append_not_read (htouch : e.touch ≠ .read) {i : ℕ} {f : Event Tid Word}
    (hf : (events ++ [e])[i]? = some f) (hread : f.touch = .read) : events[i]? = some f := by
  rcases getElem?_append_cases hf with hf | ⟨-, rfl⟩
  · exact hf
  · exact absurd hread htouch

theorem ReadsLearned.append (h : ReadsLearned events t) (htouch : e.touch ≠ .read) :
    ReadsLearned (events ++ [e]) t :=
  fun i f hf hread ↦ (h i f (getElem?_of_append_not_read htouch hf hread) hread).append

theorem ReadsPublished.append (h : ReadsPublished events w) (htouch : e.touch ≠ .read)
    (hkeeps : ¬ e.access.Stores w) : ReadsPublished (events ++ [e]) w :=
  fun i f hf hread ↦ (h i f (getElem?_of_append_not_read htouch hf hread) hread).append hkeeps

theorem ReadsPublished.learn (h : ReadsPublished events w) (htouch : e.touch ≠ .read)
    (hacquires : e.access.Acquires w) : ReadsLearned (events ++ [e]) e.thread :=
  fun i f hf hread ↦ (h i f (getElem?_of_append_not_read htouch hf hread) hread).learn hacquires

theorem ReadsLearned.publish (h : ReadsLearned events e.thread) (htouch : e.touch ≠ .read)
    (hreleases : e.access.Releases w) : ReadsPublished (events ++ [e]) w :=
  fun i f hf hread ↦ (h i f (getElem?_of_append_not_read htouch hf hread) hread).publish hreleases

end Reads

/-! ### Holds on the cell -/

/-- What a thread may do with the cell. -/
inductive Hold
  | free
  | reading
  | writing
  deriving DecidableEq

section Discipline

variable {Tid Word : Type*} [DecidableEq Tid] {lock : Word} {hold hold' : Tid → Hold}
  {events : Trace Tid Word} {e : Event Tid Word}

/-- What an event may do to the holds of the threads. -/
inductive Move (lock : Word) (hold hold' : Tid → Hold) (e : Event Tid Word) : Prop
  | stay (haccess : ¬ e.access.Stores lock)
      (hread : e.touch = .read → hold e.thread ≠ .free)
      (hwrite : e.touch = .write → hold e.thread = .writing) (hsame : hold' = hold)
  | acquireRead (haccess : e.access.Acquires lock ∧ ¬ e.access.Stores lock)
      (htouch : e.touch = .none) (hnobody : ∀ u, hold u ≠ .writing)
      (htaken : hold' = update hold e.thread .reading)
  | acquireWrite (haccess : e.access.Acquires lock) (htouch : e.touch = .none)
      (hnobody : ∀ u, hold u = .free) (htaken : hold' = update hold e.thread .writing)
  | releaseRead (haccess : e.access.Releases lock ∧ ¬ e.access.Stores lock)
      (htouch : e.touch = .none) (hheld : hold e.thread = .reading)
      (hgiven : hold' = update hold e.thread .free)
  | releaseWrite (haccess : e.access.Releases lock) (htouch : e.touch = .none)
      (hheld : hold e.thread = .writing) (hgiven : hold' = update hold e.thread .free)

/-- The trace has no race, and every touch is known to those who may conflict with it: a write to
the threads with a hold, a read to the holder for writing. While nobody holds for writing, the
writes and the reads of the threads without a hold are published at the lock word. -/
structure Ordered (lock : Word) (hold : Tid → Hold) (events : Trace Tid Word) : Prop where
  exclusive : ∀ t u, hold t = .writing → u ≠ t → hold u = .free
  raceFree : RaceFree events
  writesLearned : ∀ i e t, events[i]? = some e → e.touch = .write → hold t ≠ .free →
    Learned events t i
  writesPublished : ∀ i e, events[i]? = some e → e.touch = .write → (∀ t, hold t ≠ .writing) →
    Published events lock i
  readsLearned : ∀ i e t, events[i]? = some e → e.touch = .read → hold t = .writing →
    Learned events t i
  readsPublished : ∀ i e, events[i]? = some e → e.touch = .read → (∀ t, hold t ≠ .writing) →
    hold e.thread = .free → Published events lock i

omit [DecidableEq Tid] in
/-- Nothing has happened yet, and nobody has a hold. -/
theorem ordered_nil (hfree : ∀ t, hold t = .free) : Ordered lock hold [] where
  exclusive := fun _ u _ _ ↦ hfree u
  raceFree := by simp [RaceFree]
  writesLearned := by simp
  writesPublished := by simp
  readsLearned := by simp
  readsPublished := by simp

omit [DecidableEq Tid] in
/-- Only the holder for writing has a hold at all while there is one. -/
theorem Ordered.eq_of_writing (h : Ordered lock hold events) {t u : Tid} (ht : hold t = .writing)
    (hu : hold u ≠ .free) : u = t := by
  by_contra hne
  exact hu (h.exclusive t u ht hne)

omit [DecidableEq Tid] in
/-- A trace without races stays so when a touch comes last that has learned what it conflicts
with. -/
theorem RaceFree.append (h : RaceFree events)
    (hlast : ∀ i f, events[i]? = some f → Conflict f.touch e.touch → Learned events e.thread i) :
    RaceFree (events ++ [e]) := by
  intro i j a b hlt ha hb hthread hconflict
  rcases getElem?_append_cases hb with hb | ⟨rfl, rfl⟩
  · rcases getElem?_append_cases ha with ha | ⟨rfl, -⟩
    · exact (h i j a b hlt ha hb hthread hconflict).append
    · exact absurd (lt_length_of_some hb) (by omega)
  · rcases getElem?_append_cases ha with ha | ⟨rfl, -⟩
    · exact (hlast i a ha hconflict).happensBefore
    · exact absurd hlt (lt_irrefl _)

omit [DecidableEq Tid] in
/-- A trace without races stays so when an event without a touch comes last. -/
theorem RaceFree.append_none (h : RaceFree events) (htouch : e.touch = .none) :
    RaceFree (events ++ [e]) :=
  h.append fun _ _ _ hconflict ↦ absurd htouch hconflict.2.1

omit [DecidableEq Tid] in
/-- An event of a kind of touch lies in the old part of a trace that ends without a touch. -/
theorem getElem?_of_append_none (htouch : e.touch = .none) {i : ℕ} {f : Event Tid Word}
    {touch : Touch} (hf : (events ++ [e])[i]? = some f) (hsome : f.touch = touch)
    (hne : touch ≠ .none) : events[i]? = some f := by
  rcases getElem?_append_cases hf with hf | ⟨-, rfl⟩
  · exact hf
  · exact absurd (hsome.symm.trans htouch) hne

omit [DecidableEq Tid] in
/-- The order is kept by an event that leaves the holds alone. -/
theorem Ordered.stay (h : Ordered lock hold events) (haccess : ¬ e.access.Stores lock)
    (hread : e.touch = .read → hold e.thread ≠ .free)
    (hwrite : e.touch = .write → hold e.thread = .writing) :
    Ordered lock hold (events ++ [e]) where
  exclusive := h.exclusive
  raceFree := by
    refine h.raceFree.append fun i f hf hconflict ↦ ?_
    cases hf' : f.touch with
    | none => exact absurd hf' hconflict.1
    | read =>
      have htouch : e.touch = .write := hconflict.2.2.resolve_left (by rw [hf']; decide)
      exact h.readsLearned i f _ hf hf' (hwrite htouch)
    | write =>
      refine h.writesLearned i f _ hf hf' ?_
      cases htouch : e.touch with
      | none => exact absurd htouch hconflict.2.1
      | read => exact hread htouch
      | write =>
        rw [hwrite htouch]
        decide
  writesLearned i f t hf hf' ht := by
    rcases getElem?_append_cases hf with hold' | ⟨-, rfl⟩
    · exact (h.writesLearned i f t hold' hf' ht).append
    · rw [h.eq_of_writing (hwrite hf') ht]
      exact learned_of_thread hf
  writesPublished i f hf hf' hnobody := by
    rcases getElem?_append_cases hf with hold' | ⟨-, rfl⟩
    · exact (h.writesPublished i f hold' hf' hnobody).append haccess
    · exact absurd (hwrite hf') (hnobody _)
  readsLearned i f t hf hf' ht := by
    rcases getElem?_append_cases hf with hold' | ⟨-, rfl⟩
    · exact (h.readsLearned i f t hold' hf' ht).append
    · rw [← h.eq_of_writing ht (hread hf')]
      exact learned_of_thread hf
  readsPublished i f hf hf' hnobody hfree := by
    rcases getElem?_append_cases hf with hold' | ⟨-, rfl⟩
    · exact (h.readsPublished i f hold' hf' hnobody hfree).append haccess
    · exact absurd hfree (hread hf')

/-- The order is kept when a hold for reading is taken. -/
theorem Ordered.acquireRead (h : Ordered lock hold events)
    (haccess : e.access.Acquires lock ∧ ¬ e.access.Stores lock) (htouch : e.touch = .none)
    (hnobody : ∀ u, hold u ≠ .writing) :
    Ordered lock (update hold e.thread .reading) (events ++ [e]) := by
  have hwriter (t : Tid) : update hold e.thread .reading t ≠ .writing := by
    by_cases ht : t = e.thread
    · rw [ht, update_self]
      decide
    · rw [update_of_ne ht]
      exact hnobody t
  refine ⟨fun t u ht ↦ absurd ht (hwriter t), h.raceFree.append_none htouch,
    fun i f t hf hf' ht ↦ ?_, fun i f hf hf' _ ↦ ?_, fun i f t _ _ ht ↦ absurd ht (hwriter t),
    fun i f hf hf' _ hfree ↦ ?_⟩
  · have hf := getElem?_of_append_none htouch hf hf' (by decide)
    by_cases heq : t = e.thread
    · rw [heq]
      exact (h.writesPublished i f hf hf' hnobody).learn haccess.1
    · rw [update_of_ne heq] at ht
      exact (h.writesLearned i f t hf hf' ht).append
  · have hf := getElem?_of_append_none htouch hf hf' (by decide)
    exact (h.writesPublished i f hf hf' hnobody).append haccess.2
  · have hf := getElem?_of_append_none htouch hf hf' (by decide)
    by_cases heq : f.thread = e.thread
    · rw [heq, update_self] at hfree
      cases hfree
    · rw [update_of_ne heq] at hfree
      exact (h.readsPublished i f hf hf' hnobody hfree).append haccess.2

/-- The order is kept when the hold for writing is taken. -/
theorem Ordered.acquireWrite (h : Ordered lock hold events) (haccess : e.access.Acquires lock)
    (htouch : e.touch = .none) (hnobody : ∀ u, hold u = .free) :
    Ordered lock (update hold e.thread .writing) (events ++ [e]) := by
  have hself (t : Tid) (ht : update hold e.thread .writing t ≠ .free) : t = e.thread := by
    by_contra hne
    rw [update_of_ne hne] at ht
    exact ht (hnobody t)
  have hnone (t : Tid) : hold t ≠ .writing := by
    rw [hnobody t]
    decide
  refine ⟨fun t u ht hu ↦ ?_, h.raceFree.append_none htouch, fun i f t hf hf' ht ↦ ?_,
    fun _ _ _ _ hwriter ↦ absurd (update_self ..) (hwriter e.thread), fun i f t hf hf' ht ↦ ?_,
    fun _ _ _ _ hwriter ↦ absurd (update_self ..) (hwriter e.thread)⟩
  · have hthread := hself t (by rw [ht]; decide)
    rw [update_of_ne (hthread ▸ hu)]
    exact hnobody u
  · have hf := getElem?_of_append_none htouch hf hf' (by decide)
    rw [hself t ht]
    exact (h.writesPublished i f hf hf' hnone).learn haccess
  · have hf := getElem?_of_append_none htouch hf hf' (by decide)
    rw [hself t (by rw [ht]; decide)]
    exact (h.readsPublished i f hf hf' hnone (hnobody _)).learn haccess

/-- The order is kept when a hold for reading is given up. -/
theorem Ordered.releaseRead (h : Ordered lock hold events)
    (haccess : e.access.Releases lock ∧ ¬ e.access.Stores lock) (htouch : e.touch = .none)
    (hheld : hold e.thread = .reading) :
    Ordered lock (update hold e.thread .free) (events ++ [e]) := by
  have hnone (t : Tid) : hold t ≠ .writing := fun ht ↦ by
    have hthread := h.eq_of_writing ht (u := e.thread) (by rw [hheld]; decide)
    rw [hthread, ht] at hheld
    cases hheld
  have hwriter (t : Tid) : update hold e.thread .free t ≠ .writing := by
    by_cases ht : t = e.thread
    · rw [ht, update_self]
      decide
    · rw [update_of_ne ht]
      exact hnone t
  refine ⟨fun t u ht ↦ absurd ht (hwriter t), h.raceFree.append_none htouch,
    fun i f t hf hf' ht ↦ ?_, fun i f hf hf' _ ↦ ?_, fun i f t _ _ ht ↦ absurd ht (hwriter t),
    fun i f hf hf' _ hfree ↦ ?_⟩
  · have hf := getElem?_of_append_none htouch hf hf' (by decide)
    refine (h.writesLearned i f t hf hf' fun hfree ↦ ht ?_).append
    by_cases heq : t = e.thread
    · rw [heq, update_self]
    · rw [update_of_ne heq, hfree]
  · have hf := getElem?_of_append_none htouch hf hf' (by decide)
    exact (h.writesPublished i f hf hf' hnone).append haccess.2
  · have hf := getElem?_of_append_none htouch hf hf' (by decide)
    by_cases heq : f.thread = e.thread
    -- the reads of the thread that lets go are its own events
    · exact (heq ▸ learned_of_thread hf : Learned events e.thread i).publish haccess.1
    · rw [update_of_ne heq] at hfree
      exact (h.readsPublished i f hf hf' hnone hfree).append haccess.2

/-- The order is kept when the hold for writing is given up. -/
theorem Ordered.releaseWrite (h : Ordered lock hold events) (haccess : e.access.Releases lock)
    (htouch : e.touch = .none) (hheld : hold e.thread = .writing) :
    Ordered lock (update hold e.thread .free) (events ++ [e]) := by
  have hfree (t : Tid) : update hold e.thread .free t = .free := by
    by_cases ht : t = e.thread
    · rw [ht, update_self]
    · rw [update_of_ne ht]
      exact h.exclusive e.thread t hheld ht
  refine ⟨fun _ u _ _ ↦ hfree u, h.raceFree.append_none htouch,
    fun _ _ t _ _ ht ↦ absurd (hfree t) ht, fun i f hf hf' _ ↦ ?_,
    fun _ _ t _ _ ht ↦ absurd ((hfree t).symm.trans ht) (by decide), fun i f hf hf' _ _ ↦ ?_⟩
  · have hf := getElem?_of_append_none htouch hf hf' (by decide)
    exact (h.writesLearned i f _ hf hf' (by rw [hheld]; decide)).publish haccess
  · have hf := getElem?_of_append_none htouch hf hf' (by decide)
    exact (h.readsLearned i f _ hf hf' hheld).publish haccess

/-- Every move keeps the order. -/
theorem Ordered.step (h : Ordered lock hold events) (hmove : Move lock hold hold' e) :
    Ordered lock hold' (events ++ [e]) := by
  cases hmove with
  | stay haccess hread hwrite hsame => exact hsame ▸ h.stay haccess hread hwrite
  | acquireRead haccess htouch hnobody htaken =>
    exact htaken ▸ h.acquireRead haccess htouch hnobody
  | acquireWrite haccess htouch hnobody htaken =>
    exact htaken ▸ h.acquireWrite haccess htouch hnobody
  | releaseRead haccess htouch hheld hgiven =>
    exact hgiven ▸ h.releaseRead haccess htouch hheld
  | releaseWrite haccess htouch hheld hgiven =>
    exact hgiven ▸ h.releaseWrite haccess htouch hheld

end Discipline

/-! ### Every run -/

section Runs

variable {Tid Word σ ι : Type*} [DecidableEq Tid] (M : System σ ι)
  (event : σ → ι → σ → Event Tid Word)

/-- The runs of a system with their traces. -/
def tracing : System (σ × Trace Tid Word) ι :=
  M.recording [] fun events s i s' ↦ events ++ [event s i s']

variable {M event}

/-- No run of a system has a race on the cell. Assumes: nobody has a hold at the start, and every
step is one of the moves. -/
theorem raceFree {ok : σ → ι → Prop} (lock : Word) (hold : σ → Tid → Hold)
    (hinit : ∀ t, hold M.init t = .free)
    (hmove : ∀ s i s', M.ReachableWhen ok s → ok s i → M.step s i = some s' →
      Move lock (hold s) (hold s') (event s i s'))
    {x : σ × Trace Tid Word} (h : (tracing M event).ReachableWhen (fun x i ↦ ok x.1 i) x) :
    RaceFree x.2 := by
  have hordered : Ordered lock (hold x.1) x.2 := by
    refine h.invariant (P := fun x ↦ Ordered lock (hold x.1) x.2) ?_ ?_
    · exact ordered_nil hinit
    · intro x i x' hrun hordered hmeets hstep
      obtain ⟨hlocal, hnote⟩ := System.recording_step hstep
      rw [hnote]
      exact hordered.step (hmove _ _ _ hrun.of_recording hmeets hlocal)
  exact hordered.raceFree

end Runs

end SyncPrimitives.Concurrency.Memory
