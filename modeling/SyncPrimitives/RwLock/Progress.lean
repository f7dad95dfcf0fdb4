import SyncPrimitives.Concurrency.Calls
import SyncPrimitives.RwLock.Exclusion

/-!
# Progress of a reader or writer that moves alone

A thread awake inside `read` or `write` moves while nobody else does: it returns with its guard, or
it does not (`Acquires`). It depends on whether it will look at the word again. After the `wait` of
its inner loop `read` loads `state`; after `wait(&self.state, u32::MAX)` it goes on with `u32::MAX`,
and a reader at this position waits for a value that it never loads. After its `wait` `write` goes
on with its cached `state`, and with an odd value above one it sleeps again, whatever the word is
(`writer_acquires_iff`, `reader_acquires_iff`).
-/

set_option autoImplicit false
set_option relaxedAutoImplicit false

namespace SyncPrimitives.RwLock

open Concurrency Function Relation StateTransition

variable {Tid : Type} [DecidableEq Tid] [Fintype Tid]

/-- What `read` or `write` leaves when it has returned with its guard. -/
structure ReturnedWith (guard : Guard) (t : Tid)
    (before after : Pool Tid Shared Thread) : Prop where
  idle : (after.threads t).call = .idle
  owned : (after.threads t).owned guard = (before.threads t).owned guard + 1
  result : (after.threads t).result =
    some (if before.shared.poisoned then .error (.poisoned guard) else .ok guard)
  word : after.shared.state = if guard = .read then before.shared.state + 2 else u32Max
  others : ∀ u, u ≠ t → after.threads u = before.threads u

/-- A thread that moves alone returns with its guard after finitely many steps, and is never
asleep. -/
def Acquires (guard : Guard) (p : Pool Tid Shared Thread) (t : Tid) : Prop :=
  (∃ p', p' ∈ eval ((machine Tid).solo t .go) p ∧ ReturnedWith guard t p p') ∧
    ∀ q, Reaches ((machine Tid).solo t .go) p q → asleepOn (q.threads t) = none

section Alone

variable {p : Pool Tid Shared Thread} {t : Tid} {guard : Guard} {s : Shared} {th : Thread}

/-- A thread between two calls, or asleep, has no regular step. -/
theorem solo_eq_none_of_call {q : Pool Tid Shared Thread}
    (h : (q.threads t).call = .idle ∨ asleepOn (q.threads t) ≠ none) :
    (machine Tid).solo t .go q = none := by
  refine Machine.solo_eq_none ?_
  show step q.shared (q.threads t) .go = none
  rcases h with hidle | hasleep
  · simp [step, hidle, idleStep]
  · unfold asleepOn at hasleep
    split at hasleep
    case h_4 => exact absurd rfl hasleep
    all_goals
      rename_i hcall
      simp [step, hcall, readStep, writeStep]

/-- A thread whose accesses lead to the return with its guard acquires. -/
theorem acquires_of_reaches
    (hruns : Reaches ((machine Tid).silentStep t .go) (p.shared, p.threads t) (s, th))
    (hidle : th.call = .idle) (howned : th.owned guard = (p.threads t).owned guard + 1)
    (hresult : th.result =
      some (if p.shared.poisoned then .error (.poisoned guard) else .ok guard))
    (hword : s.state = if guard = .read then p.shared.state + 2 else u32Max) :
    Acquires guard p t := by
  have hpool := Machine.reaches_put p hruns
  rw [Machine.put_self] at hpool
  have hself : (Machine.put p t (s, th)).threads t = th := update_self ..
  have hlast : (machine Tid).solo t .go (Machine.put p t (s, th)) = none :=
    solo_eq_none_of_call (by rw [hself]; exact .inl hidle)
  have hends := mem_eval.mpr ⟨hpool, hlast⟩
  refine ⟨⟨_, hends, ?_⟩, ?_⟩
  · constructor
    case idle => rwa [hself]
    case owned => rwa [hself]
    case result => rwa [hself]
    case word => exact hword
    case others =>
      intro u hu
      exact update_of_ne hu ..
  · intro q hreaches
    by_contra hasleep
    have hstuck := mem_eval.mpr ⟨hreaches, solo_eq_none_of_call (.inr hasleep)⟩
    have hsame : q = Machine.put p t (s, th) := Part.mem_unique hstuck hends
    rw [hsame, hself] at hasleep
    exact hasleep (by simp [asleepOn, hidle])

/-- A thread whose accesses lead to a stop without a new guard does not acquire. -/
theorem not_acquires_of_reaches
    (hruns : Reaches ((machine Tid).silentStep t .go) (p.shared, p.threads t) (s, th))
    (hstop : th.call = .idle ∨ asleepOn th ≠ none)
    (howned : th.owned guard = (p.threads t).owned guard) : ¬ Acquires guard p t := by
  rintro ⟨⟨p', hends, hreturned⟩, -⟩
  have hpool := Machine.reaches_put p hruns
  rw [Machine.put_self] at hpool
  have hself : (Machine.put p t (s, th)).threads t = th := update_self ..
  have hlast : (machine Tid).solo t .go (Machine.put p t (s, th)) = none :=
    solo_eq_none_of_call (by rwa [hself])
  have hsame : p' = Machine.put p t (s, th) :=
    Part.mem_unique hends (mem_eval.mpr ⟨hpool, hlast⟩)
  have hmore := hreturned.owned
  rw [hsame, hself, howned] at hmore
  omega

end Alone

/-! ### Writers -/

/-- Whether `write` looks at the word again before it waits, when it goes on with a cached
`state`. -/
def LooksAgain (state : ℕ) : Prop := state ≤ 1 ∨ state % 2 = 0

/-- The positions from which `write` looks at a free word before it waits: before its first
compare-and-exchange has gone through, or past a `wait` with a cached `state` other than an odd one
above one. -/
def WillLook (s : Shared) (th : Thread) : WritePc → Prop
  | .acquiredCheck => th.acquired = false
  | .load => True
  | .acquire _ _ => True
  | .setWaiting _ _ => True
  | .newGuard _ => False
  | .loadNumber _ => False
  | .wait state wc => s.writersNumber ≠ wc ∧ LooksAgain state
  | .asleep _ => False
  | .dropGuard state => LooksAgain state

section Writers

variable {t : Tid} {s : Shared} {th : Thread} {state : ℕ}

/-- The lock and its new owner after `write`. -/
def afterWrite (s : Shared) (th : Thread) : Shared × Thread :=
  ({ s with state := u32Max }, finish s (th.acquire .write) .write)

omit [DecidableEq Tid] [Fintype Tid] in
/-- The loop of `write` with the value of a free word. -/
theorem reaches_afterWrite (hfree : s.state ≤ 1) :
    Reaches ((machine Tid).silentStep t .go) (s, writeLoop th s.state) (afterWrite s th) := by
  have hloop : writeLoop th s.state = th.goto (.write (.acquire s.state hfree)) := dif_pos hfree
  rw [hloop]
  refine .head (b := ({ s with state := u32Max }, th.acquire .write)) ?_ (.single ?_)
  · simp [Machine.silentStep, machine, step, Thread.goto, writeStep, quiet, Thread.acquire]
  · simp [Machine.silentStep, machine, step, Thread.acquire, quiet, afterWrite, finish]

omit [DecidableEq Tid] [Fintype Tid] in
/-- The loop of `write` with a cached value that makes it look at the word again. -/
theorem reaches_afterWrite_of_looksAgain (hfree : s.state ≤ 1) (hlooks : LooksAgain state) :
    Reaches ((machine Tid).silentStep t .go) (s, writeLoop th state) (afterWrite s th) := by
  by_cases hle : state ≤ 1
  · have hloop : writeLoop th state = th.goto (.write (.acquire state hle)) := dif_pos hle
    by_cases hsame : s.state = state
    · rw [← hsame]
      exact reaches_afterWrite hfree
    · rw [hloop]
      refine .head ?_ (reaches_afterWrite hfree)
      simp [Machine.silentStep, machine, step, Thread.goto, writeStep, hsame, quiet, writeLoop]
  · have heven : state % 2 = 0 := hlooks.resolve_left hle
    have hloop : writeLoop th state =
        th.goto (.write (.setWaiting state ⟨heven, not_le.mp hle⟩)) :=
      (dif_neg hle).trans (dif_pos heven)
    have hother : s.state ≠ state := by omega
    rw [hloop]
    refine .head ?_ (reaches_afterWrite hfree)
    simp [Machine.silentStep, machine, step, Thread.goto, writeStep, hother, quiet, writeLoop]

omit [DecidableEq Tid] [Fintype Tid] in
/-- A writer that creates its guard sleeps, since nobody changes `writers_number`. -/
theorem reaches_asleep_of_loadNumber :
    Reaches ((machine Tid).silentStep t .go) (s, th.goto (.write (.loadNumber state)))
      (s, th.goto (.write (.asleep state))) := by
  refine .head (b := (s, th.goto (.write (.wait state s.writersNumber)))) ?_ (.single ?_)
  · simp [Machine.silentStep, machine, step, Thread.goto, writeStep, quiet]
  · simp [Machine.silentStep, machine, step, Thread.goto, writeStep, quiet]

omit [DecidableEq Tid] [Fintype Tid] in
theorem reaches_asleep_of_newGuard :
    Reaches ((machine Tid).silentStep t .go) (s, th.goto (.write (.newGuard state)))
      ({ s with waitingWriters := addU32 s.waitingWriters 1 },
        th.goto (.write (.asleep state))) := by
  refine .head ?_ reaches_asleep_of_loadNumber
  simp [Machine.silentStep, machine, step, Thread.goto, writeStep, quiet]

omit [DecidableEq Tid] [Fintype Tid] in
/-- The loop of `write` with a cached odd value above one. -/
theorem reaches_asleep_of_not_looksAgain (hlooks : ¬ LooksAgain state) :
    Reaches ((machine Tid).silentStep t .go) (s, writeLoop th state)
      ({ s with waitingWriters := addU32 s.waitingWriters 1 },
        th.goto (.write (.asleep state))) := by
  obtain ⟨hle, hodd⟩ := not_or.mp hlooks
  have hloop : writeLoop th state = th.goto (.write (.newGuard state)) :=
    (dif_neg hle).trans (dif_neg hodd)
  rw [hloop]
  exact reaches_asleep_of_newGuard

/-- The lock after the drop of a `WaitingWriterGuard`. -/
def uncounted (s : Shared) : Shared :=
  { s with waitingWriters := subU32 s.waitingWriters 1 }

@[simp] theorem state_uncounted : (uncounted s).state = s.state := by
  cases s
  rfl

@[simp] theorem poisoned_uncounted : (uncounted s).poisoned = s.poisoned := by
  cases s
  rfl

omit [DecidableEq Tid] [Fintype Tid] in
theorem silentStep_dropGuard :
    (machine Tid).silentStep t .go (s, th.goto (.write (.dropGuard state))) =
      some (uncounted s, writeLoop th state) := by
  simp [Machine.silentStep, machine, step, Thread.goto, writeStep, quiet, writeLoop, uncounted]

omit [DecidableEq Tid] [Fintype Tid] in
theorem reaches_afterWrite_of_dropGuard (hfree : s.state ≤ 1) (hlooks : LooksAgain state) :
    Reaches ((machine Tid).silentStep t .go) (s, th.goto (.write (.dropGuard state)))
      (afterWrite (uncounted s) th) := by
  have hfree' : (uncounted s).state ≤ 1 := by rwa [state_uncounted]
  exact .head (b := (uncounted s, writeLoop th state)) silentStep_dropGuard
    (reaches_afterWrite_of_looksAgain hfree' hlooks)

omit [DecidableEq Tid] [Fintype Tid] in
theorem exists_reaches_asleep_of_dropGuard (hlooks : ¬ LooksAgain state) :
    ∃ s', Reaches ((machine Tid).silentStep t .go) (s, th.goto (.write (.dropGuard state)))
      (s', th.goto (.write (.asleep state))) := by
  exact ⟨_, .head (b := (uncounted s, writeLoop th state)) silentStep_dropGuard
    (reaches_asleep_of_not_looksAgain hlooks)⟩

omit [DecidableEq Tid] [Fintype Tid] in
/-- A writer that will look at the word acquires it. -/
theorem exists_reaches_afterWrite {pc : WritePc} (hcall : th.call = .write pc) (hfree : s.state ≤ 1)
    (hlook : WillLook s th pc) :
    ∃ s', Reaches ((machine Tid).silentStep t .go) (s, th) (afterWrite s' th) ∧
      s'.poisoned = s.poisoned := by
  have hth : th = th.goto (.write pc) := by rw [← hcall]; rfl
  cases pc with
  | acquiredCheck =>
    have hnot : th.acquired = false := hlook
    refine ⟨s,
      .head (b := (s, th.goto (.write .load))) ?_ (.head ?_ (reaches_afterWrite hfree)), rfl⟩
    · simp [Machine.silentStep, machine, step, hcall, writeStep, acquiredCheck, hnot, quiet]
    · simp [Machine.silentStep, machine, step, Thread.goto, writeStep, quiet, writeLoop]
  | load =>
    refine ⟨s, .head ?_ (reaches_afterWrite hfree), rfl⟩
    simp [Machine.silentStep, machine, step, hcall, writeStep, quiet]
  | acquire state hle =>
    have hloop : writeLoop th state = th := (dif_pos hle).trans hth.symm
    have hruns : Reaches ((machine Tid).silentStep t .go) (s, writeLoop th state)
        (afterWrite s th) := reaches_afterWrite_of_looksAgain hfree (.inl hle)
    rw [hloop] at hruns
    exact ⟨s, hruns, rfl⟩
  | setWaiting state hshared =>
    have hloop : writeLoop th state = th :=
      ((dif_neg (not_le.mpr hshared.2)).trans (dif_pos hshared.1)).trans hth.symm
    have hruns : Reaches ((machine Tid).silentStep t .go) (s, writeLoop th state)
        (afterWrite s th) := reaches_afterWrite_of_looksAgain hfree (.inr hshared.1)
    rw [hloop] at hruns
    exact ⟨s, hruns, rfl⟩
  | newGuard state => cases hlook
  | loadNumber state => cases hlook
  | wait state wc =>
    obtain ⟨hmoved, hlooks⟩ := hlook
    refine ⟨_, .head ?_ (reaches_afterWrite_of_dropGuard hfree hlooks), poisoned_uncounted⟩
    simp [Machine.silentStep, machine, step, hcall, writeStep, hmoved, quiet]
  | asleep state => cases hlook
  | dropGuard state =>
    rw [hth]
    exact ⟨_, reaches_afterWrite_of_dropGuard hfree hlook, poisoned_uncounted⟩

omit [DecidableEq Tid] [Fintype Tid] in
/-- A writer that will not look at the word is refused or sleeps. -/
theorem exists_reaches_stop {pc : WritePc} (hcall : th.call = .write pc)
    (hlook : ¬ WillLook s th pc) :
    ∃ s' th', Reaches ((machine Tid).silentStep t .go) (s, th) (s', th') ∧
      (th'.call = .idle ∨ asleepOn th' ≠ none) ∧ th'.owned .write = th.owned .write := by
  have hth : th = th.goto (.write pc) := by rw [← hcall]; rfl
  have hasleep (state : ℕ) : asleepOn (th.goto (.write (.asleep state))) ≠ none :=
    Option.some_ne_none Addr.writersNumber
  cases pc with
  | acquiredCheck =>
    have hrefused : th.acquired = true := Bool.not_eq_false _ ▸ hlook
    refine ⟨s, th.ret (.error .wouldBlock), .single ?_, .inl rfl, rfl⟩
    simp [Machine.silentStep, machine, step, hcall, writeStep, acquiredCheck, hrefused, quiet]
  | load => exact absurd trivial hlook
  | acquire state hle => exact absurd trivial hlook
  | setWaiting state hshared => exact absurd trivial hlook
  | newGuard state =>
    rw [hth]
    exact ⟨_, th.goto (.write (.asleep state)), reaches_asleep_of_newGuard,
      .inr (hasleep state), rfl⟩
  | loadNumber state =>
    rw [hth]
    exact ⟨s, th.goto (.write (.asleep state)), reaches_asleep_of_loadNumber, .inr (hasleep state),
      rfl⟩
  | wait state wc =>
    by_cases hsame : s.writersNumber = wc
    · refine ⟨s, th.goto (.write (.asleep state)), .single ?_, .inr (hasleep state), rfl⟩
      simp [Machine.silentStep, machine, step, hcall, writeStep, hsame, quiet]
    · have hstays : ¬ LooksAgain state := fun hlooks ↦ hlook ⟨hsame, hlooks⟩
      obtain ⟨s', hruns⟩ : ∃ s', Reaches ((machine Tid).silentStep t .go)
          (s, th.goto (.write (.dropGuard state))) (s', th.goto (.write (.asleep state))) :=
        exists_reaches_asleep_of_dropGuard hstays
      refine ⟨s', th.goto (.write (.asleep state)), .head ?_ hruns, .inr (hasleep state), rfl⟩
      simp [Machine.silentStep, machine, step, hcall, writeStep, hsame, quiet]
  | asleep state => exact ⟨s, th, .refl, .inr (hth ▸ hasleep state), rfl⟩
  | dropGuard state =>
    obtain ⟨s', hruns⟩ : ∃ s', Reaches ((machine Tid).silentStep t .go)
        (s, th.goto (.write (.dropGuard state))) (s', th.goto (.write (.asleep state))) :=
      exists_reaches_asleep_of_dropGuard hlook
    rw [← hth] at hruns
    exact ⟨s', th.goto (.write (.asleep state)), hruns, .inr (hasleep state), rfl⟩

theorem not_acquires_of_not_willLook {p : Pool Tid Shared Thread} {pc : WritePc}
    (hcall : (p.threads t).call = .write pc) (hlook : ¬ WillLook p.shared (p.threads t) pc) :
    ¬ Acquires .write p t := by
  obtain ⟨s', th', hruns, hstop, howned⟩ := exists_reaches_stop (t := t) hcall hlook
  exact not_acquires_of_reaches hruns hstop howned

/-- A writer that moves alone on a free lock acquires it if and only if it will look at the word
before it waits. -/
theorem writer_acquires_iff {p : Pool Tid Shared Thread} {pc : WritePc}
    (hcall : (p.threads t).call = .write pc) (hfree : p.shared.state ≤ 1) :
    Acquires .write p t ↔ WillLook p.shared (p.threads t) pc := by
  constructor
  · intro hacquires
    by_contra hlook
    exact not_acquires_of_not_willLook hcall hlook hacquires
  · intro hlook
    obtain ⟨s', hruns, hpoisoned⟩ := exists_reaches_afterWrite (t := t) hcall hfree hlook
    refine acquires_of_reaches hruns rfl rfl ?_ rfl
    rw [← hpoisoned]
    rfl

/-- `writer_acquires_iff` on a run in which a writer that has found the word shared by a reader goes
on with its cached `state`, which is even, after the reader has left. -/
theorem writer_acquires_iff_after_reader :
    ∃ p : Pool (Fin 2) Shared Thread, (system (Fin 2)).Reachable p ∧ p.shared.state ≤ 1 ∧
      Acquires .write p 1 := by
  obtain ⟨p, hrun, hcall, hfree⟩ := System.exists_reachableWhen_of_exec
    (M := system (Fin 2)) (fun _ _ ↦ True)
    (P := fun p ↦ (p.threads 1).call = .write (.dropGuard 2) ∧ p.shared.state ≤ 1)
    [⟨0, .call .read, none⟩, ⟨0, .go, none⟩, ⟨0, .go, none⟩, ⟨0, .go, none⟩, ⟨0, .go, none⟩,
      ⟨1, .call .write, none⟩, ⟨1, .go, none⟩, ⟨1, .go, none⟩, ⟨1, .go, none⟩, ⟨1, .go, none⟩,
      ⟨1, .go, none⟩, ⟨1, .go, none⟩, ⟨0, .drop .read false, none⟩, ⟨0, .go, none⟩,
      ⟨0, .go, none⟩, ⟨0, .go, some 1⟩] (by decide)
  exact ⟨p, hrun, hfree, (writer_acquires_iff hcall hfree).mpr (.inr rfl)⟩

/-- A writer that has found `u32::MAX` and slept goes on with this value after the drop of the write
guard has woken it, and sleeps again although the word is zero. -/
theorem writer_sleeps_beside_free_lock :
    ∃ p : Pool (Fin 2) Shared Thread, (system (Fin 2)).Reachable p ∧
      (p.threads 1).call = .write (.dropGuard u32Max) ∧ asleepOn (p.threads 1) = none ∧
      p.shared.state = 0 ∧ ¬ Acquires .write p 1 := by
  obtain ⟨p, hrun, hcall, hawake, hstate⟩ := System.exists_reachableWhen_of_exec
    (M := system (Fin 2)) (fun _ _ ↦ True)
    (P := fun p ↦ (p.threads 1).call = .write (.dropGuard u32Max) ∧
      asleepOn (p.threads 1) = none ∧ p.shared.state = 0)
    [⟨0, .call .write, none⟩, ⟨0, .go, none⟩, ⟨0, .go, none⟩, ⟨0, .go, none⟩, ⟨0, .go, none⟩,
      ⟨1, .call .write, none⟩, ⟨1, .go, none⟩, ⟨1, .go, none⟩, ⟨1, .go, none⟩, ⟨1, .go, none⟩,
      ⟨1, .go, none⟩, ⟨0, .drop .write false, none⟩, ⟨0, .go, none⟩, ⟨0, .go, none⟩,
      ⟨0, .go, none⟩, ⟨0, .go, none⟩, ⟨0, .go, some 1⟩] (by decide)
  refine ⟨p, hrun, hcall, hawake, hstate, not_acquires_of_not_willLook hcall ?_⟩
  show ¬ (u32Max ≤ 1 ∨ u32Max % 2 = 0)
  decide

end Writers

/-! ### Readers -/

/-- The positions from which `read` looks at a readable word: all but the `wait` for `u32::MAX`. -/
def WillRead (th : Thread) : ReadPc → Prop
  | .acquiredCheck => th.acquired = false
  | .load => True
  | .wait _ _ => True
  | .asleep => False
  | .reload => True
  | .compareExchange _ _ => True
  | .waitMax => False
  | .asleepMax => False

section Readers

variable {t : Tid} {s : Shared} {th : Thread}

/-- The lock and its new owner after `read`. -/
def afterRead (s : Shared) (th : Thread) : Shared × Thread :=
  ({ s with state := addU32 s.state 2 }, finish s (th.acquire .read) .read)

/-- Whether the word lets another reader in. -/
def Readable (s : Shared) : Prop := s.state % 2 = 0 ∧ s.state < u32Max - 1

omit [DecidableEq Tid] [Fintype Tid] in
/-- The loop of `read` with the value of a readable word. -/
theorem reaches_afterRead (hreadable : Readable s) :
    Reaches ((machine Tid).silentStep t .go) (s, readWhile th s.state) (afterRead s th) := by
  have hloop : readWhile th s.state = th.goto (.read (.compareExchange s.state hreadable.1)) :=
    dif_pos hreadable.1
  rw [hloop]
  refine .head (b := ({ s with state := addU32 s.state 2 }, th.acquire .read)) ?_ (.single ?_)
  · simp [Machine.silentStep, machine, step, Thread.goto, readStep, quiet, Thread.acquire]
  · simp [Machine.silentStep, machine, step, Thread.acquire, quiet, afterRead, finish]

theorem readLoop_eq (hreadable : Readable s) : readLoop th s.state = readWhile th s.state := by
  have hlt := hreadable.2
  rw [readLoop, if_neg (by omega), if_neg (by omega)]

omit [DecidableEq Tid] [Fintype Tid] in
/-- A reader that will look at the word acquires it. -/
theorem reaches_afterRead_of_willRead {pc : ReadPc} (hcall : th.call = .read pc)
    (hreadable : Readable s) (hlook : WillRead th pc) :
    Reaches ((machine Tid).silentStep t .go) (s, th) (afterRead s th) := by
  cases pc with
  | acquiredCheck =>
    have hnot : th.acquired = false := hlook
    refine .head (b := (s, th.goto (.read .load))) ?_ (.head ?_ (reaches_afterRead hreadable))
    · simp [Machine.silentStep, machine, step, hcall, readStep, acquiredCheck, hnot, quiet]
    · simp [Machine.silentStep, machine, step, Thread.goto, readStep, quiet, readLoop_eq hreadable,
        readWhile]
  | load =>
    refine .head ?_ (reaches_afterRead hreadable)
    simp [Machine.silentStep, machine, step, hcall, readStep, quiet, readLoop_eq hreadable]
  | wait state hodd =>
    have hmoved : s.state ≠ state := by
      have heven := hreadable.1
      omega
    refine .head (b := (s, th.goto (.read .reload))) ?_ (.head ?_ (reaches_afterRead hreadable))
    · simp [Machine.silentStep, machine, step, hcall, readStep, hmoved, quiet]
    · simp [Machine.silentStep, machine, step, Thread.goto, readStep, quiet, readWhile]
  | asleep => cases hlook
  | reload =>
    refine .head ?_ (reaches_afterRead hreadable)
    simp [Machine.silentStep, machine, step, hcall, readStep, quiet]
  | compareExchange state heven =>
    by_cases hsame : s.state = state
    · subst hsame
      have hloop : readWhile th s.state = th := by
        rw [readWhile, dif_pos heven, Thread.goto, ← hcall]
      have hruns : Reaches ((machine Tid).silentStep t .go) (s, readWhile th s.state)
          (afterRead s th) := reaches_afterRead hreadable
      rwa [hloop] at hruns
    · refine .head ?_ (reaches_afterRead hreadable)
      simp [Machine.silentStep, machine, step, hcall, readStep, hsame, quiet, readLoop_eq hreadable]
  | waitMax => cases hlook
  | asleepMax => cases hlook

/-- A reader at the `wait` for `u32::MAX` goes round in a loop. -/
theorem not_acquires_waitMax {p : Pool Tid Shared Thread}
    (hcall : (p.threads t).call = .read .waitMax) (hstate : p.shared.state ≠ u32Max) :
    ¬ Acquires .read p t := by
  rintro ⟨⟨p', hends, -⟩, -⟩
  have hsame : readLoop (p.threads t) u32Max = p.threads t := by
    rw [readLoop, if_pos rfl, Thread.goto, ← hcall]
  have hstep : (machine Tid).silentStep t .go (p.shared, p.threads t) =
      some (p.shared, p.threads t) := by
    simp [Machine.silentStep, machine, step, hcall, readStep, hstate, quiet, hsame]
  have hloop := Machine.solo_put (p := p) hstep
  rw [Machine.put_self] at hloop
  exact not_mem_eval_of_loop hloop hends

/-- A reader that moves alone on a readable lock acquires it if and only if it is not refused at the
start and does not wait for `u32::MAX`. -/
theorem reader_acquires_iff {p : Pool Tid Shared Thread} {pc : ReadPc}
    (hcall : (p.threads t).call = .read pc) (hreadable : Readable p.shared) :
    Acquires .read p t ↔ WillRead (p.threads t) pc := by
  constructor
  · intro hacquires
    by_contra hlook
    cases pc with
    | acquiredCheck =>
      have hrefused : (p.threads t).acquired = true := Bool.not_eq_false _ ▸ hlook
      have hstep : (machine Tid).silentStep t .go (p.shared, p.threads t) =
          some (p.shared, (p.threads t).ret (.error .wouldBlock)) := by
        simp [Machine.silentStep, machine, step, hcall, readStep, acquiredCheck, hrefused, quiet]
      exact not_acquires_of_reaches (.single hstep) (.inl rfl) rfl hacquires
    | load => exact hlook trivial
    | wait state hodd => exact hlook trivial
    | asleep =>
      have hasleep : asleepOn (p.threads t) ≠ none := by simp [asleepOn, hcall]
      exact not_acquires_of_reaches .refl (.inr hasleep) rfl hacquires
    | reload => exact hlook trivial
    | compareExchange state heven => exact hlook trivial
    | waitMax =>
      have hlt := hreadable.2
      exact not_acquires_waitMax hcall (by omega) hacquires
    | asleepMax =>
      have hasleep : asleepOn (p.threads t) ≠ none := by simp [asleepOn, hcall]
      exact not_acquires_of_reaches .refl (.inr hasleep) rfl hacquires
  · intro hlook
    have hlt := hreadable.2
    have hword : addU32 p.shared.state 2 = p.shared.state + 2 :=
      addU32_of_lt (by rw [u32Max_eq] at hlt; omega)
    have hruns := reaches_afterRead_of_willRead (t := t) hcall hreadable hlook
    exact acquires_of_reaches hruns rfl rfl rfl (hword.trans (if_pos rfl).symm)

/-- `reader_acquires_iff` on a run in which a reader has found the word free and another reader has
acquired it since. -/
theorem reader_acquires_iff_beside_reader :
    ∃ p : Pool (Fin 2) Shared Thread, (system (Fin 2)).Reachable p ∧ p.shared.state = 2 ∧
      Acquires .read p 1 := by
  obtain ⟨p, hrun, hcall, hstate⟩ := System.exists_reachableWhen_of_exec
    (M := system (Fin 2)) (fun _ _ ↦ True)
    (P := fun p ↦ (p.threads 1).call = .read (.compareExchange 0 rfl) ∧ p.shared.state = 2)
    [⟨0, .call .read, none⟩, ⟨0, .go, none⟩, ⟨0, .go, none⟩, ⟨1, .call .read, none⟩,
      ⟨1, .go, none⟩, ⟨1, .go, none⟩, ⟨0, .go, none⟩] (by decide)
  have hreadable : Readable p.shared := by
    rw [Readable, hstate]
    decide
  exact ⟨p, hrun, hstate, (reader_acquires_iff hcall hreadable).mpr trivial⟩

/-- A reader that has found `u32::MAX` goes on waiting for this value after the write guard has been
dropped: `wait` returns at once, and the word is never loaded again. -/
theorem reader_spins_beside_free_lock :
    ∃ p : Pool (Fin 2) Shared Thread, (system (Fin 2)).Reachable p ∧
      (p.threads 1).call = .read .waitMax ∧ asleepOn (p.threads 1) = none ∧
      p.shared.state = 0 ∧ ¬ Acquires .read p 1 := by
  obtain ⟨p, hrun, hcall, hawake, hstate⟩ := System.exists_reachableWhen_of_exec
    (M := system (Fin 2)) (fun _ _ ↦ True)
    (P := fun p ↦ (p.threads 1).call = .read .waitMax ∧ asleepOn (p.threads 1) = none ∧
      p.shared.state = 0)
    [⟨0, .call .write, none⟩, ⟨0, .go, none⟩, ⟨0, .go, none⟩, ⟨0, .go, none⟩, ⟨0, .go, none⟩,
      ⟨1, .call .read, none⟩, ⟨1, .go, none⟩, ⟨1, .go, none⟩, ⟨0, .drop .write false, none⟩,
      ⟨0, .go, none⟩, ⟨0, .go, none⟩, ⟨0, .go, none⟩] (by decide)
  refine ⟨p, hrun, hcall, hawake, hstate, not_acquires_waitMax hcall ?_⟩
  rw [hstate]
  decide

end Readers

end SyncPrimitives.RwLock
