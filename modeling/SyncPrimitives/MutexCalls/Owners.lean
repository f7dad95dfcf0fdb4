import SyncPrimitives.Concurrency.Calls
import SyncPrimitives.MutexCommon

/-!
# Mutexes, call by call

What the mutexes are for, when every call runs to its end before the next one begins: each mutex has
at most one owner, a flag that says whether the owner still has the guard, and the poison flag
(`owners`). A call is made by a thread on a mutex. The drop of an `Err(Poisoned)` is the drop of the
guard inside.

`Version` is what the two implementations have in common: a machine whose threads use many mutexes,
and where to find in it what a program sees between two calls. `Version.object` runs every call
alone to its end. A version refines the owners if every call does to it what it does to the owners
(`Version.Refines`); then both return the same results (`Version.Refines.runs_iff`), and every call
returns (`Version.Refines.returns`).
-/

set_option autoImplicit false
set_option relaxedAutoImplicit false

namespace SyncPrimitives.MutexCalls

open Concurrency Function MutexCommon StateTransition

/-- The calls on a mutex, and `leak`, which forgets a guard. -/
inductive Method
  | lock
  | tryLock
  | drop (panicking : Bool)
  | leak
  | isPoisoned
  | clearPoison
  deriving DecidableEq

/-- Whether a call takes a guard of its thread away. -/
def Method.takesGuard : Method → Bool
  | .drop _ | .leak => true
  | _ => false

/-- A thread makes a call on a mutex. -/
structure Call (Tid Mutex : Type) where
  thread : Tid
  mutex : Mutex
  method : Method

/-- The results of the calls. -/
inductive Result
  | locked (ret : LockResult)
  | dropped
  | leaked
  | poisoned (flag : Bool)
  | cleared
  deriving DecidableEq

/-! ### The owners -/

/-- The owner of a mutex, whether it still has the guard, and the poison flag. -/
structure Ownership (Tid : Type) where
  owner : Option Tid
  held : Bool
  poisoned : Bool
  deriving DecidableEq

namespace Ownership

variable {Tid : Type}

/-- A new mutex. -/
def new (Tid : Type) : Ownership Tid where
  owner := none
  held := false
  poisoned := false

/-- The mutex after a thread has acquired it. -/
def acquire (o : Ownership Tid) (t : Tid) : Ownership Tid :=
  { o with owner := some t, held := true }

/-- The mutex after the drop of its guard. -/
def release (o : Ownership Tid) (panicking : Bool) : Ownership Tid where
  owner := none
  held := false
  poisoned := o.poisoned || panicking

/-- The number of guards a thread has. -/
def guards [DecidableEq Tid] (o : Ownership Tid) (t : Tid) : ℕ :=
  if o.owner = some t ∧ o.held then 1 else 0

section Guards

variable [DecidableEq Tid] {o : Ownership Tid} {t u : Tid}

theorem guards_pos_iff : 0 < o.guards t ↔ o.owner = some t ∧ o.held = true := by
  unfold guards
  split <;> simp_all

theorem guards_free (hfree : o.owner = none) : o.guards t = 0 := by
  simp [guards, hfree]

theorem guards_acquire_self : (o.acquire t).guards t = 1 := by
  simp [guards, acquire]

theorem guards_acquire_of_ne (hu : u ≠ t) : (o.acquire t).guards u = 0 := by
  simp [guards, acquire, hu.symm]

theorem guards_of_ne (ht : 0 < o.guards t) (hu : u ≠ t) : o.guards u = 0 := by
  have howner := (guards_pos_iff.mp ht).1
  simp [guards, howner, hu.symm]

theorem guards_self (ht : 0 < o.guards t) : o.guards t = 1 := by
  simp [guards, guards_pos_iff.mp ht]

theorem guards_release {panicking : Bool} : (o.release panicking).guards u = 0 := by
  simp [guards, release]

theorem guards_leaked : ({ o with held := false } : Ownership Tid).guards u = 0 := by
  simp [guards]

end Guards

/-- What a call does; `none` for a `lock` that would wait, or without the guard it needs. -/
def call [DecidableEq Tid] (o : Ownership Tid) (t : Tid) : Method → Option (Ownership Tid × Result)
  | .lock =>
    if o.owner = some t then some (o, .locked (.error .wouldBlock))
    else if o.owner = none then some (o.acquire t, .locked (lockResult o.poisoned))
    else none
  | .tryLock =>
    if o.owner = none then some (o.acquire t, .locked (lockResult o.poisoned))
    else some (o, .locked (.error .wouldBlock))
  | .drop panicking => if 0 < o.guards t then some (o.release panicking, .dropped) else none
  | .leak => if 0 < o.guards t then some ({ o with held := false }, .leaked) else none
  | .isPoisoned => some (o, .poisoned o.poisoned)
  | .clearPoison => some ({ o with poisoned := false }, .cleared)

/-- A `lock` by a thread that does not have to wait for another one. -/
def MayLock (o : Ownership Tid) (t : Tid) : Prop := o.owner = none ∨ o.owner = some t

/-- A call has an outcome. Assumes: a `lock` need not wait, and there is a guard to take away. -/
theorem exists_call [DecidableEq Tid] {o : Ownership Tid} {t : Tid} {method : Method}
    (hmay : method = .lock → o.MayLock t) (hguard : method.takesGuard = true → 0 < o.guards t) :
    ∃ outcome, o.call t method = some outcome := by
  cases method with
  | lock =>
    rcases hmay rfl with hfree | howned
    · have hother : ¬ o.owner = some t := by simp [hfree]
      exact ⟨_, (if_neg hother).trans (if_pos hfree)⟩
    · exact ⟨_, if_pos howned⟩
  | tryLock =>
    by_cases hfree : o.owner = none
    · exact ⟨_, if_pos hfree⟩
    · exact ⟨_, if_neg hfree⟩
  | drop panicking => exact ⟨_, if_pos (hguard rfl)⟩
  | leak => exact ⟨_, if_pos (hguard rfl)⟩
  | isPoisoned => exact ⟨_, rfl⟩
  | clearPoison => exact ⟨_, rfl⟩

end Ownership

/-- The owners of many mutexes as an object. -/
def owners (Tid Mutex : Type) [DecidableEq Tid] [DecidableEq Mutex] :
    Object (Mutex → Ownership Tid) (Call Tid Mutex) Result where
  call := fun o c o' result ↦
    ∃ after, (o c.mutex).call c.thread c.method = some (after, result) ∧ o' = update o c.mutex after

/-- `lock` is called only when it does not have to wait. -/
def MayLock {Tid Mutex : Type} (o : Mutex → Ownership Tid) (c : Call Tid Mutex) : Prop :=
  c.method = .lock → (o c.mutex).MayLock c.thread

/-! ### The versions -/

/-- A machine whose threads use many mutexes, and what a program sees of it between two calls:
`mayLock` tells whether the word of a mutex lets `lock` return without waiting. -/
structure Version (Tid Mutex Shared Local Choice Addr : Type) where
  machine : Machine Tid Shared Local Choice Addr
  choose : Mutex → MutexCommon.Choice → Choice
  idle : Local → Prop
  result : Local → Mutex → Option LockResult
  guards : Local → Mutex → ℕ
  forget : Local → Mutex → Local
  isPoisoned : Shared → Mutex → Bool
  mayLock : Shared → Tid → Local → Mutex → Prop

namespace Version

variable {Tid Mutex Shared Local Choice Addr : Type} [DecidableEq Tid] [Fintype Tid]
  [DecidableEq Addr] (V : Version Tid Mutex Shared Local Choice Addr)

/-- A call of an idle thread that runs alone to its end. -/
def Ends (p : Pool Tid Shared Local) (t : Tid) (mutex : Mutex) (choice : MutexCommon.Choice)
    (p' : Pool Tid Shared Local) : Prop :=
  ∃ begun, V.machine.solo t (V.choose mutex choice) p = some begun ∧
    p' ∈ eval (V.machine.solo t (V.choose mutex .go)) begun ∧ V.idle (p'.threads t)

/-- What a call does to the pool, and its result. -/
def CallAlone (p : Pool Tid Shared Local) (t : Tid) (mutex : Mutex) (p' : Pool Tid Shared Local)
    (result : Result) : Method → Prop
  | .lock =>
    V.Ends p t mutex (.call .lock) p' ∧
      (V.result (p'.threads t) mutex).map .locked = some result
  | .tryLock =>
    V.Ends p t mutex (.call .tryLock) p' ∧
      (V.result (p'.threads t) mutex).map .locked = some result
  | .drop panicking => V.Ends p t mutex (.drop panicking) p' ∧ result = .dropped
  | .leak =>
    0 < V.guards (p.threads t) mutex ∧
      p' = { p with threads := update p.threads t (V.forget (p.threads t) mutex) } ∧
      result = .leaked
  | .isPoisoned => p' = p ∧ result = .poisoned (V.isPoisoned p.shared mutex)
  | .clearPoison => V.Ends p t mutex .clearPoison p' ∧ result = .cleared

/-- A version as an object. -/
def object : Object (Pool Tid Shared Local) (Call Tid Mutex) Result where
  call := fun p c p' result ↦ V.CallAlone p c.thread c.mutex p' result c.method

/-- `lock` is called only when it does not have to wait. -/
def MayLock (p : Pool Tid Shared Local) (c : Call Tid Mutex) : Prop :=
  c.method = .lock → V.mayLock p.shared c.thread (p.threads c.thread) c.mutex

variable {V} {p p₁ p₂ : Pool Tid Shared Local} {t : Tid} {mutex : Mutex}

theorem Ends.unique {choice : MutexCommon.Choice} (h₁ : V.Ends p t mutex choice p₁)
    (h₂ : V.Ends p t mutex choice p₂) : p₁ = p₂ := by
  obtain ⟨begun₁, hbegun₁, hends₁, -⟩ := h₁
  obtain ⟨begun₂, hbegun₂, hends₂, -⟩ := h₂
  obtain rfl : begun₁ = begun₂ := Option.some.inj (hbegun₁.symm.trans hbegun₂)
  exact Part.mem_unique hends₁ hends₂

/-- A call has one outcome. -/
theorem CallAlone.unique {method : Method} {result₁ result₂ : Result}
    (h₁ : V.CallAlone p t mutex p₁ result₁ method) (h₂ : V.CallAlone p t mutex p₂ result₂ method) :
    p₁ = p₂ ∧ result₁ = result₂ := by
  cases method with
  | lock | tryLock =>
    obtain rfl := h₁.1.unique h₂.1
    exact ⟨rfl, Option.some.inj (h₁.2.symm.trans h₂.2)⟩
  | drop panicking => exact ⟨h₁.1.unique h₂.1, h₁.2.trans h₂.2.symm⟩
  | clearPoison => exact ⟨h₁.1.unique h₂.1, h₁.2.trans h₂.2.symm⟩
  | leak => exact ⟨h₁.2.1.trans h₂.2.1.symm, h₁.2.2.trans h₂.2.2.symm⟩
  | isPoisoned => exact ⟨h₁.1.trans h₂.1.symm, h₁.2.trans h₂.2.symm⟩

/-- The outcome of a call on the owner of a mutex is the outcome of the call on the version. -/
def Matches [DecidableEq Mutex] (V : Version Tid Mutex Shared Local Choice Addr)
    (Represents : Pool Tid Shared Local → (Mutex → Ownership Tid) → Prop)
    (p : Pool Tid Shared Local) (o : Mutex → Ownership Tid) (t : Tid) (mutex : Mutex)
    (method : Method) : Option (Ownership Tid × Result) → Prop
  | some (after, result) =>
    ∃ p', V.CallAlone p t mutex p' result method ∧ Represents p' (update o mutex after)
  | none => ∀ p' result, ¬ V.CallAlone p t mutex p' result method

/-- A version refines the owners: a relation holds at the start, under which `lock` waits in both or
in neither, the threads have the same guards, and every call has the same outcome in both, if it is
not a `lock` that waits. -/
structure Refines [DecidableEq Mutex] (V : Version Tid Mutex Shared Local Choice Addr)
    (start : Pool Tid Shared Local)
    (Represents : Pool Tid Shared Local → (Mutex → Ownership Tid) → Prop) : Prop where
  start : Represents start fun _ ↦ .new Tid
  mayLock : ∀ p o t mutex, Represents p o →
    (V.mayLock p.shared t (p.threads t) mutex ↔ (o mutex).MayLock t)
  guards : ∀ p o t mutex, Represents p o → V.guards (p.threads t) mutex = (o mutex).guards t
  call : ∀ p o t mutex method, Represents p o → (method = .lock → (o mutex).MayLock t) →
    V.Matches Represents p o t mutex method ((o mutex).call t method)

/-- After every sequence of calls, a call returns unless it is a `lock` that waits or has no guard
to take away. -/
def Returns (V : Version Tid Mutex Shared Local Choice Addr)
    (start : Pool Tid Shared Local) : Prop :=
  ∀ calls p results, V.object.Runs V.MayLock start calls p results → ∀ c, V.MayLock p c →
    (c.method.takesGuard = true → 0 < V.guards (p.threads c.thread) c.mutex) →
      ∃ p' result, V.object.call p c p' result

section Refinement

variable [DecidableEq Mutex] {start : Pool Tid Shared Local}
  {Represents : Pool Tid Shared Local → (Mutex → Ownership Tid) → Prop}
  {calls : List (Call Tid Mutex)} {results : List Result}

/-- A sequence of calls on a version is one on the owners it represents. -/
theorem Refines.exists_owners (h : V.Refines start Represents)
    (hrun : V.object.Runs V.MayLock start calls p results) :
    ∃ o, (owners Tid Mutex).Runs MutexCalls.MayLock (fun _ ↦ .new Tid) calls o results ∧
      Represents p o := by
  refine hrun.simulate ?_ h.start
  rintro p o ⟨t, mutex, method⟩ p' result hrelated hissued hends
  have hissued' : method = .lock → (o mutex).MayLock t :=
    fun hlock ↦ (h.mayLock p o t mutex hrelated).mp (hissued hlock)
  have hmatches := h.call p o t mutex method hrelated hissued'
  cases houtcome : (o mutex).call t method with
  | none =>
    rw [houtcome] at hmatches
    exact absurd hends (hmatches p' result)
  | some outcome =>
    rw [houtcome] at hmatches
    obtain ⟨p₂, hends₂, hrelated₂⟩ := hmatches
    obtain ⟨rfl, rfl⟩ := hends₂.unique hends
    exact ⟨hissued', _, ⟨outcome.1, houtcome, rfl⟩, hrelated₂⟩

/-- A sequence of calls on the owners is one on the version. -/
theorem Refines.exists_pool (h : V.Refines start Represents) {o : Mutex → Ownership Tid}
    (hrun : (owners Tid Mutex).Runs MutexCalls.MayLock (fun _ ↦ .new Tid) calls o results) :
    ∃ p, V.object.Runs V.MayLock start calls p results ∧ Represents p o := by
  refine hrun.simulate (R := fun o p ↦ Represents p o) ?_ h.start
  rintro o p ⟨t, mutex, method⟩ o' result hrelated hissued ⟨after, houtcome, rfl⟩
  have hmatches := h.call p o t mutex method hrelated hissued
  rw [houtcome] at hmatches
  exact ⟨fun hlock ↦ (h.mayLock p o t mutex hrelated).mpr (hissued hlock), hmatches⟩

/-- A version and the owners return the same results on every sequence of calls. -/
theorem Refines.runs_iff (h : V.Refines start Represents) (calls : List (Call Tid Mutex))
    (results : List Result) :
    (∃ p, V.object.Runs V.MayLock start calls p results) ↔
      ∃ o, (owners Tid Mutex).Runs MutexCalls.MayLock (fun _ ↦ .new Tid) calls o results := by
  constructor
  · rintro ⟨p, hrun⟩
    exact (h.exists_owners hrun).imp fun _ ↦ And.left
  · rintro ⟨o, hrun⟩
    exact (h.exists_pool hrun).imp fun _ ↦ And.left

/-- The calls on a version return. -/
theorem Refines.returns (h : V.Refines start Represents) : V.Returns start := by
  rintro calls p results hrun ⟨t, mutex, method⟩ hmay hguard
  obtain ⟨o, -, hrelated⟩ := h.exists_owners hrun
  have hissued : method = .lock → (o mutex).MayLock t :=
    fun hlock ↦ (h.mayLock p o t mutex hrelated).mp (hmay hlock)
  have hheld : method.takesGuard = true → 0 < (o mutex).guards t :=
    fun htakes ↦ h.guards p o t mutex hrelated ▸ hguard htakes
  obtain ⟨outcome, houtcome⟩ := Ownership.exists_call hissued hheld
  have hmatches := h.call p o t mutex method hrelated hissued
  rw [houtcome] at hmatches
  obtain ⟨p', hends, -⟩ := hmatches
  exact ⟨p', outcome.2, hends⟩

end Refinement

end Version

end SyncPrimitives.MutexCalls
