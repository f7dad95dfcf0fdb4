import SyncPrimitives.RingBuffer.Ownership

/-!
# What a failed pop destroys

`pop` and `try_pop` copy the value out of its slot before they know whether they own it. If the
compare-and-exchange on `tail` fails, the copy goes out of scope at the end of the iteration or of
the call, and its destructor runs although the buffer still holds the value. `withDestructors`
records the values that are destroyed so. A pushed value should be owned once: returned by one pop,
or dropped by `Drop` when all calls have returned (`OwnedByOne`). `value_destroyed_twice` is a run
in which a spurious failure of `try_pop` destroys a value that the next pop returns.

Under `HarmlessCondition` no copy is destroyed and every value is owned once, with any number of
producers and consumers (`failed_pops_harmless`). The condition asks that no compare-and-exchange on
`tail` fails: not spuriously, and not because another pop has succeeded since `tail` was loaded. The
rest of it is what publication asks for.
-/

set_option autoImplicit false
set_option relaxedAutoImplicit false

namespace SyncPrimitives.RingBuffer

open Concurrency Function

variable {Tid α : Type}

/-! ### Destructors -/

/-- The value whose destructor an access of a pop runs: the copy, if the compare-and-exchange
fails. -/
def PopPc.destroys (s : Shared α) : PopPc α → Access → Option (MaybeUninit α)
  | .compareExchange currentTail value, .go => if s.tail = currentTail then none else some value
  | .compareExchange _ value, .spurious => some value
  | _, _ => none

/-- The value whose destructor a step runs. -/
def Call.destroys (s : Shared α) : Call α → Choice α → Option (MaybeUninit α)
  | .pop pc, .access access => pc.destroys s access
  | .tryPop pc, .access access => pc.destroys s access
  | _, _ => none

/-- The threads of a ring buffer, with the values that failed pops have destroyed. -/
def withDestructors (N : ℕ) (Tid α : Type) [DecidableEq Tid] [Fintype Tid] :
    System (Pool Tid (Shared α) (Call α) × List (MaybeUninit α)) (Label Tid (Choice α)) :=
  (system N Tid α).recording [] fun destroyed p label _ ↦
    destroyed ++ ((p.threads label.thread).destroys p.shared label.choice).toList

/-- The values returned by pops, those destroyed by failed pops and those that `Drop` drops are the
values that have been pushed, each once. -/
def OwnedByOne (N : ℕ) (s : Shared α) (destroyed : List (MaybeUninit α)) : Prop :=
  (s.popped.map Prod.snd ++ destroyed ++ dropped N s).Perm
    (s.claimed.map fun entry ↦ some entry.2)

instance [DecidableEq α] (N : ℕ) (s : Shared α) (destroyed : List (MaybeUninit α)) :
    Decidable (OwnedByOne N s destroyed) :=
  inferInstanceAs (Decidable (List.Perm _ _))

/-- Thread 0 pushes a value; the compare-and-exchange of a `try_pop` fails spuriously; a `pop`
returns the value. -/
def destroyedRun : List (Label (Fin 2) (Choice ℕ)) :=
  [⟨0, .call (.push 7), none⟩, ⟨0, .access .go, none⟩, ⟨0, .access .go, none⟩,
    ⟨0, .access .go, none⟩, ⟨0, .access .go, none⟩,
    ⟨1, .call .tryPop, none⟩, ⟨1, .access .go, none⟩, ⟨1, .access .go, none⟩,
    ⟨1, .access .go, none⟩, ⟨1, .access .spurious, none⟩,
    ⟨1, .call .pop, none⟩, ⟨1, .access .go, none⟩, ⟨1, .access .go, none⟩,
    ⟨1, .access .go, none⟩, ⟨1, .access .go, none⟩]

/-- A value that has been destroyed is returned: it has two owners. -/
theorem value_destroyed_twice :
    ∃ x, (withDestructors 2 (Fin 2) ℕ).Reachable x ∧ (∀ t, x.1.threads t = .idle) ∧
      ¬ OwnedByOne 2 x.1.shared x.2 := by
  exact System.exists_reachableWhen_of_exec (M := withDestructors 2 (Fin 2) ℕ) _
    (P := fun x ↦ (∀ t, x.1.threads t = .idle) ∧ ¬ OwnedByOne 2 x.1.shared x.2)
    destroyedRun (by decide)

/-! ### Runs in which no pop fails -/

/-- The condition on a step. A compare-and-exchange on `tail` does not fail spuriously, and it is
executed only while no other thread is between its load of `tail` and its own; a position is claimed
only while fewer than `2 ^ 64` positions have been claimed or while the buffer is not full; a slot
is read only when the push that claimed its position has written it. -/
structure HarmlessCondition (N : ℕ) (p : Pool Tid (Shared α) (Call α))
    (label : Label Tid (Choice α)) : Prop where
  notSpurious : (p.threads label.thread).holding → label.choice ≠ .access .spurious
  exclusive : (p.threads label.thread).holding →
    ∀ u, u ≠ label.thread → (p.threads u).caching = false
  roomToClaim : (p.threads label.thread).claiming →
    p.shared.claimed.length < 2 ^ 64 ∨ subUsize p.shared.head p.shared.tail < N
  published : (p.threads label.thread).reading →
    ∀ u, (p.threads u).writing ≠ some p.shared.popped.length

instance [DecidableEq Tid] [Fintype Tid] (N : ℕ) (p : Pool Tid (Shared α) (Call α))
    (label : Label Tid (Choice α)) [DecidableEq α] : Decidable (HarmlessCondition N p label) :=
  decidable_of_iff
    (((p.threads label.thread).holding → label.choice ≠ .access .spurious) ∧
      ((p.threads label.thread).holding →
        ∀ u, u ≠ label.thread → (p.threads u).caching = false) ∧
      ((p.threads label.thread).claiming →
        p.shared.claimed.length < 2 ^ 64 ∨ subUsize p.shared.head p.shared.tail < N) ∧
      ((p.threads label.thread).reading →
        ∀ u, (p.threads u).writing ≠ some p.shared.popped.length))
    ⟨fun ⟨h₁, h₂, h₃, h₄⟩ ↦ ⟨h₁, h₂, h₃, h₄⟩, fun ⟨h₁, h₂, h₃, h₄⟩ ↦ ⟨h₁, h₂, h₃, h₄⟩⟩

section Runs

variable {N : ℕ} {s : Shared α} {f : Tid → Call α}

/-- A compare-and-exchange that finds the loaded `tail` destroys nothing. -/
theorem Indexed.destroys_eq_none (h : Indexed N s f) {t : Tid} {choice : Choice α}
    (hspurious : (f t).holding → choice ≠ .access .spurious) :
    (f t).destroys s choice = none := by
  have hpop {pc : PopPc α} {access : Access} (hpc : pc.Bound s)
      (hspurious : pc.holding → access ≠ .spurious) : pc.destroys s access = none := by
    cases pc with
    | compareExchange currentTail value =>
      cases access with
      | go => exact if_pos hpc.1.symm
      | spurious => exact absurd rfl (hspurious rfl)
    | _ => rfl
  have hbound := h.bound t
  cases hcall : f t with
  | pop pc | tryPop pc =>
    rw [hcall] at hspurious hbound
    cases choice with
    | call method => rfl
    | access access =>
      exact hpop hbound fun hholding heq ↦ hspurious hholding (congrArg Choice.access heq)
  | _ => rfl

/-- Between calls the buffer holds the values that have been claimed and not popped. -/
theorem Consistent.holds (h : Consistent N s f) (hi : Indexed N s f) (hN : PowerOfTwo N)
    (hidle : ∀ u, (f u).writing = none) :
    Holds N s ((s.claimed.drop s.popped.length).map Prod.snd) where
  size := by
    have hroom := hi.room
    rw [List.length_map, List.length_drop]
    omega
  tail := by
    rw [hi.tail]
    exact Nat.mod_lt _ (Nat.two_pow_pos 64)
  head := by
    have hle := hi.le
    rw [hi.head, hi.tail, List.length_map, List.length_drop]
    omega
  slots := by
    intro i value hvalue
    rw [List.getElem?_map, List.getElem?_drop] at hvalue
    obtain ⟨entry, hentry, rfl⟩ := Option.map_eq_some_iff.mp hvalue
    rw [hi.tail, Nat.mod_add_mod, hN.mod_mod]
    rcases h.slot _ entry (Nat.le_add_right _ _) hentry with ⟨u, hu⟩ | hbuffer
    · rw [hidle u] at hu
      cases hu
    · exact hbuffer

/-- The pops have returned the values of the first claims. -/
theorem Consistent.popped_eq (h : Consistent N s f) (hi : Indexed N s f) :
    s.popped.map Prod.snd = (s.claimed.take s.popped.length).map fun entry ↦ some entry.2 := by
  have hle := hi.le
  refine List.ext_getElem (by simpa using hle) fun i hleft _ ↦ ?_
  have hlt : i < s.popped.length := by simpa using hleft
  obtain ⟨value, hclaimed, hvalue⟩ := h.returned i s.popped[i] (List.getElem?_eq_getElem hlt)
  have hentry := (List.getElem?_eq_some_iff.mp hclaimed).2
  simp [hvalue, hentry]

/-- Every value is owned once, if and only if `head` has not wrapped around past `tail` when the
buffer is dropped. -/
theorem Consistent.ownedByOne_iff (h : Consistent N s f) (hi : Indexed N s f) (hN : PowerOfTwo N)
    (hidle : ∀ u, (f u).writing = none) : OwnedByOne N s [] ↔ s.tail ≤ s.head := by
  have hholds := h.holds hi hN hidle
  rw [OwnedByOne, h.popped_eq hi, List.append_nil]
  constructor
  · intro hperm
    refine hholds.le_of_length ?_
    have hlength := hperm.length_eq
    simp only [List.length_append, List.length_map, List.length_take, List.length_drop] at hlength ⊢
    omega
  · intro hle
    rw [hholds.dropped_eq hN.lt (hholds.dropAgrees hN.lt (.inr hN) hle), List.map_map]
    show ((s.claimed.take s.popped.length).map (fun entry ↦ some entry.2) ++
      (s.claimed.drop s.popped.length).map fun entry ↦ some entry.2).Perm _
    rw [← List.map_append, List.take_append_drop]

variable [DecidableEq Tid] [Fintype Tid]

/-- The invariants of the indices and of the values hold in every run under the condition. -/
theorem consistent_of_harmless (hN : PowerOfTwo N) {p : Pool Tid (Shared α) (Call α)}
    (h : (system N Tid α).ReachableWhen (HarmlessCondition N) p) :
    Indexed N p.shared p.threads ∧ Consistent N p.shared p.threads := by
  refine h.invariant (P := fun p ↦ Indexed N p.shared p.threads ∧
    Consistent N p.shared p.threads) ⟨bounded_new.indexed, consistent_new⟩ ?_
  rintro p label p' _ ⟨hi, hc⟩ hmeets hmove
  exact ⟨indexed_step hN.lt hi hmeets.roomToClaim hmeets.exclusive hmove,
    consistent_step hN hi hc hmeets.exclusive hmeets.published hmove⟩

/-- In every run in which no pop fails, no destructor runs on a copied value, and once all calls
have returned every pushed value is owned once: by the caller of one pop, or by `Drop`. The latter
holds if and only if `head` has not wrapped around past `tail`. -/
theorem failed_pops_harmless (hN : PowerOfTwo N)
    {x : Pool Tid (Shared α) (Call α) × List (MaybeUninit α)}
    (h : (withDestructors N Tid α).ReachableWhen (fun x label ↦ HarmlessCondition N x.1 label) x) :
    x.2 = [] ∧
      ((∀ t, x.1.threads t = .idle) →
        (OwnedByOne N x.1.shared x.2 ↔ x.1.shared.tail ≤ x.1.shared.head)) := by
  have hnone : x.2 = [] := by
    refine h.invariant (P := fun x ↦ x.2 = []) rfl ?_
    intro x label x' hrun hnone hmeets hmove
    obtain ⟨hi, -⟩ := consistent_of_harmless hN hrun.of_recording
    rw [(System.recording_step hmove).2, hnone, hi.destroys_eq_none hmeets.notSpurious]
    rfl
  refine ⟨hnone, fun hidle ↦ ?_⟩
  obtain ⟨hi, hc⟩ := consistent_of_harmless hN h.of_recording
  rw [hnone]
  exact hc.ownedByOne_iff hi hN fun u ↦ by rw [hidle u]; rfl

/-- `failed_pops_harmless` after a run in which two consumers overlap: each has popped one of three
values, and the third is left to `Drop`. -/
theorem failed_pops_harmless_two_consumers :
    ∃ x : Pool (Fin 3) (Shared ℕ) (Call ℕ) × List (MaybeUninit ℕ),
      (x.1.shared.popped = [(0, some 7), (1, some 8)] ∧ dropped 4 x.1.shared = [some 9] ∧
        x.1.shared.tail ≤ x.1.shared.head ∧ ∀ t, x.1.threads t = .idle) ∧
      x.2 = [] ∧
        ((∀ t, x.1.threads t = .idle) →
          (OwnedByOne 4 x.1.shared x.2 ↔ x.1.shared.tail ≤ x.1.shared.head)) := by
  obtain ⟨x, hrun, hstate⟩ := System.exists_reachableWhen_of_exec
    (M := withDestructors 4 (Fin 3) ℕ) (fun x label ↦ HarmlessCondition 4 x.1 label)
    (P := fun x ↦ x.1.shared.popped = [(0, some 7), (1, some 8)] ∧
      dropped 4 x.1.shared = [some 9] ∧ x.1.shared.tail ≤ x.1.shared.head ∧
      ∀ t, x.1.threads t = .idle)
    [⟨0, .call (.push 7), none⟩, ⟨0, .access .go, none⟩, ⟨0, .access .go, none⟩,
      ⟨0, .access .go, none⟩, ⟨0, .access .go, none⟩,
      ⟨0, .call (.tryPush 8), none⟩, ⟨0, .access .go, none⟩, ⟨0, .access .go, none⟩,
      ⟨0, .access .go, none⟩, ⟨0, .access .go, none⟩,
      ⟨1, .call .pop, none⟩, ⟨1, .access .go, none⟩, ⟨1, .access .go, none⟩,
      ⟨2, .call .tryPop, none⟩,
      ⟨1, .access .go, none⟩, ⟨1, .access .go, none⟩,
      ⟨2, .access .go, none⟩, ⟨2, .access .go, none⟩, ⟨2, .access .go, none⟩,
      ⟨2, .access .go, none⟩,
      ⟨0, .call (.push 9), none⟩, ⟨0, .access .go, none⟩, ⟨0, .access .go, none⟩,
      ⟨0, .access .go, none⟩, ⟨0, .access .go, none⟩] (by decide)
  exact ⟨x, hstate, failed_pops_harmless ⟨2, by decide, rfl⟩ hrun⟩

end Runs

end SyncPrimitives.RingBuffer
