import SyncPrimitives.MutexV1.ManyMutexes
import SyncPrimitives.MutexV2.Calls

/-!
# The two mutexes are interchangeable

Both versions of the mutex are refinements of the owners, so a program that makes its calls one
after the other cannot tell them apart: it gets the same results from `mutex_v1.rs` and from
`mutex_v2.rs`, whatever the calls, the threads and the mutexes.
-/

set_option autoImplicit false
set_option relaxedAutoImplicit false

namespace SyncPrimitives.MutexCalls

open Concurrency MutexCommon

variable {Tid Mutex α : Type} [DecidableEq Tid] [Fintype Tid] [DecidableEq Mutex]

/-- A sequence of calls returns the same results in both versions. The calls return: a sequence of
calls that has led somewhere can be continued by every call that need not wait and has the guard it
takes away. -/
theorem versions_interchangeable (threadIds : MutexV1.ThreadIds Tid)
    (mutexIds : MutexV2.Many.MutexIds Mutex) (data : Mutex → α) :
    (∀ calls results,
      (∃ p, (MutexV1.Many.version threadIds Mutex).object.Runs
        (MutexV1.Many.version threadIds Mutex).MayLock (MutexV1.Many.new Tid Mutex)
        calls p results) ↔
      ∃ p, (MutexV2.Many.version Tid mutexIds α).object.Runs
        (MutexV2.Many.version Tid mutexIds α).MayLock (MutexV2.Many.new Tid data) calls p results) ∧
    (∀ calls p₁ results₁ p₂ results₂,
      (MutexV1.Many.version threadIds Mutex).object.Runs
        (MutexV1.Many.version threadIds Mutex).MayLock (MutexV1.Many.new Tid Mutex) calls p₁
        results₁ →
      (MutexV2.Many.version Tid mutexIds α).object.Runs
        (MutexV2.Many.version Tid mutexIds α).MayLock (MutexV2.Many.new Tid data) calls p₂
        results₂ →
      results₁ = results₂) ∧
    (MutexV1.Many.version threadIds Mutex).Returns (MutexV1.Many.new Tid Mutex) ∧
    (MutexV2.Many.version Tid mutexIds α).Returns (MutexV2.Many.new Tid data) := by
  have hfirst : (MutexV1.Many.version threadIds Mutex).Refines (MutexV1.Many.new Tid Mutex)
      (MutexV1.Many.Represents threadIds) := MutexV1.Many.refines_owners threadIds
  have hsecond : (MutexV2.Many.version Tid mutexIds α).Refines (MutexV2.Many.new Tid data)
      (MutexV2.Many.Represents mutexIds) := MutexV2.Many.refines_owners mutexIds data
  have hsame (calls : List (Call Tid Mutex)) (results : List Result) :=
    (hfirst.runs_iff calls results).trans (hsecond.runs_iff calls results).symm
  refine ⟨hsame, fun calls p₁ results₁ p₂ results₂ h₁ h₂ ↦ ?_, hfirst.returns, hsecond.returns⟩
  obtain ⟨p, h⟩ := (hsame calls results₁).mp ⟨p₁, h₁⟩
  exact (h.unique (fun _ _ _ _ _ _ ↦ Version.CallAlone.unique) h₂).2

/-- Two threads and two mutexes, one of which is poisoned, owned again and leaked. -/
example : ∃ p, (MutexV1.Many.version MutexV1.twoThreadIds Bool).object.Runs
    (MutexV1.Many.version MutexV1.twoThreadIds Bool).MayLock (MutexV1.Many.new (Fin 2) Bool)
    [⟨0, false, .lock⟩, ⟨1, false, .tryLock⟩, ⟨0, false, .lock⟩, ⟨0, true, .tryLock⟩,
      ⟨0, false, .drop true⟩, ⟨1, false, .lock⟩, ⟨1, false, .isPoisoned⟩, ⟨1, false, .leak⟩,
      ⟨1, false, .lock⟩, ⟨1, false, .clearPoison⟩, ⟨0, false, .tryLock⟩] p
    [.locked (.ok ()), .locked (.error .wouldBlock), .locked (.error .wouldBlock),
      .locked (.ok ()), .dropped, .locked (.error .poisoned), .poisoned true, .leaked,
      .locked (.error .wouldBlock), .cleared, .locked (.error .wouldBlock)] := by
  refine ((MutexV1.Many.refines_owners MutexV1.twoThreadIds).runs_iff _ _).mpr ?_
  exact ⟨_, .cons (fun _ ↦ .inl rfl) ⟨_, rfl, rfl⟩ (.cons nofun ⟨_, rfl, rfl⟩
    (.cons (fun _ ↦ .inr rfl) ⟨_, rfl, rfl⟩ (.cons nofun ⟨_, rfl, rfl⟩
    (.cons nofun ⟨_, rfl, rfl⟩ (.cons (fun _ ↦ .inl rfl) ⟨_, rfl, rfl⟩
    (.cons nofun ⟨_, rfl, rfl⟩ (.cons nofun ⟨_, rfl, rfl⟩
    (.cons (fun _ ↦ .inr rfl) ⟨_, rfl, rfl⟩ (.cons nofun ⟨_, rfl, rfl⟩
    (.cons nofun ⟨_, rfl, rfl⟩ .nil))))))))))⟩

end SyncPrimitives.MutexCalls
