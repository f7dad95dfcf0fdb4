import SyncPrimitives.Concurrency.RaceFreedom
import SyncPrimitives.Semaphore.Clients

/-!
# The orderings of the semaphore

The compare-and-exchanges of `wait` and `try_wait` acquire when they succeed, the increment of
`signal` releases, and nothing overwrites `count` without reading it, so that an increment continues
the release sequences before it. A semaphore with one permit whose clients give back what they have
taken therefore protects data like a lock (`binary_protects`).
-/

set_option autoImplicit false
set_option relaxedAutoImplicit false

namespace SyncPrimitives.Semaphore

open Concurrency Memory

/-- The atomic words of a semaphore. -/
inductive Word
  | count
  | numWaiting
  deriving DecidableEq

/-- A compare-and-exchange of a count that has been seen. -/
def exchange (shared : Shared) (count : ℕ) : Access Word :=
  if shared.count = count then .rmw .count true false else .load .count false

/-- The access of a step; `wait` compares the word in the kernel. -/
def Call.access (shared : Shared) : Call → Choice → Access Word
  | .wait .fetchAdd, .go => .rmw .numWaiting false false
  | .wait .load, .go => .load .count false
  | .wait .wait, .go => .load .count false
  | .wait (.compareExchangeWeak count _), .go => exchange shared count
  | .wait (.compareExchangeWeak _ _), .spurious => .load .count false
  | .wait .fetchSub, .go => .rmw .numWaiting false false
  | .tryWait .load, .go => .load .count false
  | .tryWait (.compareExchangeWeak count _), .go => exchange shared count
  | .tryWait (.compareExchangeWeak _ _), .spurious => .load .count false
  | .signal .fetchAdd, .go => .rmw .count false true
  | .signal .load, .go => .load .numWaiting false
  | _, _ => .none

/-- The access of a step of a client. -/
def access (shared : Shared) (client : Client) (choice : Choice) : Access Word :=
  client.thread.call.access shared choice

section Steps

variable {Tid : Type} {before after : Shared} {client moved : Client} {signal : Signal Tid Addr}
  {choice : Choice} {call : Call}

/-- Nothing overwrites the count. -/
theorem not_stores : ¬ (call.access before choice).Stores .count := by
  have hexchange (count : ℕ) : ¬ (exchange before count).Stores .count := by
    unfold exchange
    split_ifs
    · exact id
    · exact id
  cases call with
  | idle => exact id
  | wait pc => cases pc <;> cases choice <;> first | exact hexchange _ | exact id
  | tryWait pc => cases pc <;> cases choice <;> first | exact hexchange _ | exact id
  | signal pc => cases pc <;> cases choice <;> exact id

/-- An attempt on the current count acquires. -/
theorem acquires_of_attempts (h : call.attempts before.count = true) :
    (call.access before .go).Acquires .count := by
  have hexchange : (exchange before before.count).Acquires .count := by
    rw [exchange, if_pos rfl]
    exact ⟨rfl, rfl⟩
  unfold Call.attempts at h
  split at h
  case h_1 count available =>
    obtain rfl : count = before.count := of_decide_eq_true h
    exact hexchange
  case h_2 count available =>
    obtain rfl : count = before.count := of_decide_eq_true h
    exact hexchange
  case h_3 => cases h

/-- The increment of `signal` releases. -/
theorem releases_of_giving (h : call.giving = true) :
    (call.access before .go).Releases .count := by
  unfold Call.giving at h
  split at h
  case h_1 => exact ⟨rfl, rfl⟩
  case h_2 => cases h

/-- Every step of a client is a passage through `count`. -/
theorem clientStep_passage (h : clientStep before client choice = some (after, moved, signal)) :
    Passage .count client.outstanding moved.outstanding (access before client choice) .none := by
  cases clientStep_move h with
  | keep hcount houtstanding =>
    exact .stay not_stores (fun hne ↦ absurd rfl hne) houtstanding
  | take hattempt hchoice hcount houtstanding =>
    rw [hchoice]
    exact .enter (acquires_of_attempts hattempt) rfl houtstanding
  | give hgiving hchoice hcount houtstanding =>
    rw [hchoice]
    exact .leave (releases_of_giving hgiving) rfl houtstanding

end Steps

/-- A semaphore with one permit protects data like a lock: as long as its clients give back only
what they have taken, no update of the data is lost, and of any two conflicting uses of the data by
different threads the earlier one happens before the later one. -/
theorem binary_protects {Tid α : Type} [DecidableEq Tid] [Fintype Tid] (data : α)
    (x : Pool Tid (Guarded.Shared Shared α) (Guarded.Local Client α) × Trace Tid Word)
    (h : (tracing (binaryWithData Tid data) (stepEvent (Guarded.access access)
      Guarded.touch)).Reachable x) :
    Guarded.Intact guards data x.1 ∧ RaceFree x.2 := by
  refine ⟨binary_intact (.of_recording h), ?_⟩
  refine Guarded.raceFree Client.outstanding .count (fun _ ↦ rfl) outstanding_wake
    (fun _ ↦ rfl) (fun p hrun t u ht ↦ binary_excludes hrun t u ht) (fun client howns ↦ ?_)
    (fun _ _ _ _ _ _ _ hstep ↦ clientStep_passage hstep) h
  exact Nat.add_pos_left (of_decide_eq_true howns) _

/-- `binary_protects` on a run in which two threads add to the data, the second one after it has
slept in `wait` and been woken. -/
theorem binary_protects_woken :
    ∃ x : Pool (Fin 2) (Guarded.Shared Shared ℕ) (Guarded.Local Client ℕ) × Trace (Fin 2) Word,
      ((x.2[10]?.map Event.touch = some .write ∧ x.2[19]?.map Event.touch = some .write) ∧
        x.1.shared.data = 12) ∧ Guarded.Intact guards 5 x.1 ∧ RaceFree x.2 := by
  obtain ⟨x, hrun, hx⟩ := System.exists_reachableWhen_of_exec
    (M := tracing (binaryWithData (Fin 2) 5)
      (stepEvent (Guarded.access access) Guarded.touch)) (fun _ _ ↦ True)
    (P := fun x ↦ (x.2[10]?.map Event.touch = some .write ∧
      x.2[19]?.map Event.touch = some .write) ∧ x.1.shared.data = 12)
    ([⟨0, .lock .wait, none⟩] ++ List.replicate 4 ⟨0, .lock .go, none⟩ ++
      [⟨1, .lock .wait, none⟩] ++ List.replicate 3 ⟨1, .lock .go, none⟩ ++
      [⟨0, .load, none⟩, ⟨0, .store (· + 3), none⟩, ⟨0, .lock .signal, none⟩,
        ⟨0, .lock .go, none⟩, ⟨0, .lock .go, none⟩, ⟨0, .lock .go, some 1⟩] ++
      List.replicate 3 ⟨1, .lock .go, none⟩ ++ [⟨1, .load, none⟩, ⟨1, .store (· + 4), none⟩])
    (by decide)
  exact ⟨x, hx, binary_protects 5 x hrun⟩

end SyncPrimitives.Semaphore
