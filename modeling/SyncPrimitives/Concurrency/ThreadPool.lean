import SyncPrimitives.Concurrency.Census
import SyncPrimitives.Concurrency.Runs
import Mathlib.Algebra.GroupWithZero.Nat

/-!
# Interleavings of threads that sleep and wake each other

A `Machine` describes one thread: its local states, the shared state, and what one atomic step does
to both. A step may also send a `Signal`: wake one or all of the threads asleep on an address, or
hand an unpark token to a thread. A `Pool` is a shared state with one local state for each thread
name, and `Machine.system` is the interleaving of all threads: a label names the thread that moves,
the choice that resolves what the thread's own step leaves open, and the thread picked by a
`wakeOne`. A `wakeOne` picks some thread asleep on the address, and picks nobody only when nobody is
asleep there; sleeping is a local state, so a thread that is asleep has no step of its own unless
its machine allows a spurious return.

`step_cases` inverts a step of the pool into a step of one thread and the delivery of its signal,
`exists_step` is the converse, and `Delivered` lists the deliveries. The rules that follow are
stated once for every machine: totals across a delivery (`Delivered.total_eq`,
`Delivered.le_total`), the projection to a part of the machine (`Delivered.map`), properties of
single threads (`forall_threads`) and the number of threads of a class
(`Delivered.countAt_update_silent`, `Delivered.countAt_update_wakeOne`,
`Delivered.countAt_wakeAll`).
-/

set_option autoImplicit false
set_option relaxedAutoImplicit false

namespace SyncPrimitives.Concurrency

open Function

/-- What a step asks of the other threads. -/
inductive Signal (Tid Addr : Type*)
  | silent
  | wakeOne (addr : Addr)
  | wakeAll (addr : Addr)
  | unpark (thread : Tid)

/-- A signal of a part of the machine, with the addresses of the whole. -/
def Signal.map {Tid Addr Addr' : Type*} (inner : Addr → Addr') : Signal Tid Addr → Signal Tid Addr'
  | .silent => .silent
  | .wakeOne addr => .wakeOne (inner addr)
  | .wakeAll addr => .wakeAll (inner addr)
  | .unpark thread => .unpark thread

theorem Signal.map_id {Tid Addr : Type*} (signal : Signal Tid Addr) : signal.map id = signal := by
  cases signal <;> rfl

/-- One thread of a concurrent program: the step of a thread with its name, the address on which a
local state is asleep, the local state after a wake-up, and the local state after an unpark. -/
structure Machine (Tid Shared Local Choice Addr : Type*) where
  step : Tid → Shared → Local → Choice → Option (Shared × Local × Signal Tid Addr)
  asleepOn : Local → Option Addr
  wake : Local → Local
  unpark : Local → Local

/-- A shared state and the local state of every thread. -/
@[ext]
structure Pool (Tid Shared Local : Type*) where
  shared : Shared
  threads : Tid → Local

/-- A step of the pool: the thread that moves, its choice, and the thread its `wakeOne` picks. -/
structure Label (Tid Choice : Type*) where
  thread : Tid
  choice : Choice
  woken : Option Tid

/-- Runs on fixed labels name their threads by literals. This instance and the next are constants,
so that no run repeats a proof for its literals. -/
instance neZero_two : NeZero 2 := ⟨Nat.succ_ne_zero 1⟩

instance neZero_three : NeZero 3 := ⟨Nat.succ_ne_zero 2⟩

namespace Machine

variable {Tid Shared Local Choice Addr : Type*}

section Delivery

variable [DecidableEq Tid] [DecidableEq Addr] (M : Machine Tid Shared Local Choice Addr)

/-- The local states after a signal, if the picked thread is a possible pick. -/
def deliver [Fintype Tid] (signal : Signal Tid Addr) (woken : Option Tid) (f : Tid → Local) :
    Option (Tid → Local) :=
  match signal, woken with
  | .silent, _ => some f
  | .wakeOne addr, some u =>
    if M.asleepOn (f u) = some addr then some (update f u (M.wake (f u))) else none
  | .wakeOne addr, none => if ∀ u, M.asleepOn (f u) ≠ some addr then some f else none
  | .wakeAll addr, _ => some fun u ↦ if M.asleepOn (f u) = some addr then M.wake (f u) else f u
  | .unpark u, _ => some (update f u (M.unpark (f u)))

/-- The deliveries of a signal. -/
inductive Delivered : Signal Tid Addr → (Tid → Local) → (Tid → Local) → Prop
  | silent {f : Tid → Local} : Delivered .silent f f
  | wakeOne {addr : Addr} {f : Tid → Local} {u : Tid} (asleep : M.asleepOn (f u) = some addr) :
      Delivered (.wakeOne addr) f (update f u (M.wake (f u)))
  | wakeNone {addr : Addr} {f : Tid → Local} (nobody : ∀ u, M.asleepOn (f u) ≠ some addr) :
      Delivered (.wakeOne addr) f f
  | wakeAll {addr : Addr} {f : Tid → Local} :
      Delivered (.wakeAll addr) f
        fun u ↦ if M.asleepOn (f u) = some addr then M.wake (f u) else f u
  | unpark {u : Tid} {f : Tid → Local} : Delivered (.unpark u) f (update f u (M.unpark (f u)))

variable {M}

/-- A computed delivery is one of the deliveries of the signal. -/
theorem delivered_of_deliver [Fintype Tid] {signal : Signal Tid Addr} {woken : Option Tid}
    {f f' : Tid → Local} (h : M.deliver signal woken f = some f') : M.Delivered signal f f' := by
  unfold deliver at h
  split at h
  · exact Option.some.inj h ▸ .silent
  · split_ifs at h with hasleep
    exact Option.some.inj h ▸ .wakeOne hasleep
  · split_ifs at h with hnobody
    exact Option.some.inj h ▸ .wakeNone hnobody
  · exact Option.some.inj h ▸ .wakeAll
  · exact Option.some.inj h ▸ .unpark

/-- Every delivery is computed for some pick. -/
theorem Delivered.exists_deliver [Fintype Tid] {signal : Signal Tid Addr} {f f' : Tid → Local}
    (h : M.Delivered signal f f') : ∃ woken, M.deliver signal woken f = some f' := by
  cases h with
  | silent => exact ⟨none, rfl⟩
  | @wakeOne _ _ u hasleep => exact ⟨some u, if_pos hasleep⟩
  | wakeNone hnobody => exact ⟨none, if_pos hnobody⟩
  | wakeAll => exact ⟨none, rfl⟩
  | unpark => exact ⟨none, rfl⟩

variable (M) in
/-- Every signal has a delivery. -/
theorem exists_delivered (signal : Signal Tid Addr) (f : Tid → Local) :
    ∃ f', M.Delivered signal f f' := by
  cases signal with
  | silent => exact ⟨f, .silent⟩
  | wakeOne addr =>
    by_cases hasleep : ∃ u, M.asleepOn (f u) = some addr
    · obtain ⟨u, hu⟩ := hasleep
      exact ⟨_, .wakeOne hu⟩
    · exact ⟨f, .wakeNone fun u hu ↦ hasleep ⟨u, hu⟩⟩
  | wakeAll addr => exact ⟨_, .wakeAll⟩
  | unpark u => exact ⟨_, .unpark⟩

/-- After a delivery a thread is as before, or it was asleep on the address of the signal and has
been woken, or it has been unparked. -/
theorem Delivered.thread_on {signal : Signal Tid Addr} {f f' : Tid → Local}
    (h : M.Delivered signal f f') (u : Tid) :
    f' u = f u ∨
      (∃ addr, (signal = .wakeOne addr ∨ signal = .wakeAll addr) ∧ M.asleepOn (f u) = some addr ∧
        f' u = M.wake (f u)) ∨
      f' u = M.unpark (f u) := by
  cases h with
  | silent => exact .inl rfl
  | wakeNone _ => exact .inl rfl
  | @wakeOne addr _ v hasleep =>
    by_cases huv : u = v
    · subst huv
      exact .inr (.inl ⟨addr, .inl rfl, hasleep, update_self ..⟩)
    · exact .inl (update_of_ne huv ..)
  | @wakeAll addr =>
    by_cases hasleep : M.asleepOn (f u) = some addr
    · exact .inr (.inl ⟨addr, .inr rfl, hasleep, if_pos hasleep⟩)
    · exact .inl (if_neg hasleep)
  | @unpark v =>
    by_cases huv : u = v
    · subst huv
      exact .inr (.inr (update_self ..))
    · exact .inl (update_of_ne huv ..)

/-- After a delivery a thread is as before, or it was asleep and has been woken, or it has been
unparked. -/
theorem Delivered.thread {signal : Signal Tid Addr} {f f' : Tid → Local}
    (h : M.Delivered signal f f') (u : Tid) :
    f' u = f u ∨ (∃ addr, M.asleepOn (f u) = some addr ∧ f' u = M.wake (f u)) ∨
      f' u = M.unpark (f u) := by
  rcases h.thread_on u with hsame | ⟨addr, -, hwoken⟩ | hunparked
  · exact .inl hsame
  · exact .inr (.inl ⟨addr, hwoken⟩)
  · exact .inr (.inr hunparked)

/-- What neither a wake-up nor an unpark changes is changed by a step as by the thread that
moves. -/
theorem Delivered.comp_eq {κ : Type*} {g : Local → κ} {signal : Signal Tid Addr}
    {f f' : Tid → Local} {t : Tid} {moved : Local}
    (h : M.Delivered signal (update f t moved) f') (hwake : ∀ a, g (M.wake a) = g a)
    (hunpark : ∀ a, g (M.unpark a) = g a) :
    (fun u ↦ g (f' u)) = update (fun u ↦ g (f u)) t (g moved) := by
  funext u
  have hsame : g (f' u) = g (update f t moved u) := by
    rcases h.thread u with heq | ⟨_, _, heq⟩ | heq
    · rw [heq]
    · rw [heq, hwake]
    · rw [heq, hunpark]
  rw [hsame]
  by_cases hu : u = t
  · rw [hu, update_self, update_self]
  · rw [update_of_ne hu, update_of_ne hu]

/-- After a delivery that is no unpark a thread is as before, or it was asleep and has been
woken. -/
theorem Delivered.thread_of_not_unpark {signal : Signal Tid Addr} {f f' : Tid → Local}
    (h : M.Delivered signal f f') (hsignal : ∀ u, signal ≠ .unpark u) (u : Tid) :
    f' u = f u ∨ f' u = M.wake (f u) := by
  cases h with
  | silent => exact .inl rfl
  | wakeNone => exact .inl rfl
  | @wakeOne _ _ v _ =>
    by_cases huv : u = v
    · subst huv
      exact .inr (update_self ..)
    · exact .inl (update_of_ne huv ..)
  | @wakeAll addr =>
    by_cases hasleep : M.asleepOn (f u) = some addr
    · exact .inr (if_pos hasleep)
    · exact .inl (if_neg hasleep)
  | unpark => exact absurd rfl (hsignal _)

/-- A weight that neither a wake-up nor an unpark changes has the same total across a delivery. -/
theorem Delivered.total_eq [Fintype Tid] {w : Local → ℕ} {signal : Signal Tid Addr}
    {f f' : Tid → Local} (h : M.Delivered signal f f')
    (hwake : ∀ a addr, M.asleepOn a = some addr → w (M.wake a) = w a)
    (hunpark : ∀ a, w (M.unpark a) = w a) : total w f' = total w f := by
  refine total_congr fun u ↦ ?_
  rcases h.thread u with heq | ⟨addr, hasleep, heq⟩ | heq
  · rw [heq]
  · rw [heq, hwake _ _ hasleep]
  · rw [heq, hunpark]

/-- A weight that wake-ups and unparks only decrease has a smaller total after a delivery. -/
theorem Delivered.le_total [Fintype Tid] {w : Local → ℕ} {signal : Signal Tid Addr}
    {f f' : Tid → Local} (h : M.Delivered signal f f')
    (hwake : ∀ a addr, M.asleepOn a = some addr → w (M.wake a) ≤ w a)
    (hunpark : ∀ a, w (M.unpark a) ≤ w a) : total w f' ≤ total w f := by
  refine Finset.sum_le_sum fun u _ ↦ ?_
  rcases h.thread u with heq | ⟨addr, hasleep, heq⟩ | heq
  · rw [heq]
  · rw [heq]; exact hwake _ _ hasleep
  · rw [heq]; exact hunpark _

/-- Nothing changes when no signal is sent. -/
theorem Delivered.silent_eq {f f' : Tid → Local} (h : M.Delivered .silent f f') : f' = f := by
  cases h
  rfl

/-- A `wakeAll` wakes exactly the threads asleep on the address. -/
theorem Delivered.wakeAll_eq {addr : Addr} {f f' : Tid → Local}
    (h : M.Delivered (.wakeAll addr) f f') :
    f' = fun u ↦ if M.asleepOn (f u) = some addr then M.wake (f u) else f u := by
  cases h
  rfl

/-- An unpark changes exactly the thread it names. -/
theorem Delivered.unpark_eq {u : Tid} {f f' : Tid → Local} (h : M.Delivered (.unpark u) f f') :
    f' = update f u (M.unpark (f u)) := by
  cases h
  rfl

/-- A `wakeOne` either finds nobody asleep on the address and changes no thread, or wakes one of the
threads asleep there. -/
theorem Delivered.wakeOne_cases {addr : Addr} {f f' : Tid → Local}
    (h : M.Delivered (.wakeOne addr) f f') :
    (f' = f ∧ ∀ u, M.asleepOn (f u) ≠ some addr) ∨
      ∃ u, M.asleepOn (f u) = some addr ∧ f' = update f u (M.wake (f u)) := by
  cases h with
  | wakeOne hasleep => exact .inr ⟨_, hasleep, rfl⟩
  | wakeNone hnobody => exact .inl ⟨rfl, hnobody⟩

/-- Projection of deliveries. Assumes: a thread is asleep on an address exactly if its projection is
asleep on the address within the part, and the projection commutes with waking and unparking. -/
theorem Delivered.map {Addr' Shared' Local' Choice' : Type*} [DecidableEq Addr']
    {M' : Machine Tid Shared' Local' Choice' Addr'} (inner : Addr' → Addr) (π : Local → Local')
    (hasleep : ∀ a addr, M.asleepOn a = some (inner addr) ↔ M'.asleepOn (π a) = some addr)
    (hwake : ∀ a addr, M'.asleepOn (π a) = some addr → π (M.wake a) = M'.wake (π a))
    (hunpark : ∀ a, π (M.unpark a) = M'.unpark (π a)) {signal : Signal Tid Addr'}
    {f f' : Tid → Local} (h : M.Delivered (signal.map inner) f f') :
    M'.Delivered signal (fun t ↦ π (f t)) (fun t ↦ π (f' t)) := by
  have hupdate (u : Tid) (b : Local) :
      (fun t ↦ π (update f u b t)) = update (fun t ↦ π (f t)) u (π b) := by
    funext t
    by_cases ht : t = u
    · subst ht
      rw [update_self, update_self]
    · rw [update_of_ne ht, update_of_ne ht]
  cases signal with
  | silent =>
    rw [h.silent_eq]
    exact .silent
  | wakeOne addr =>
    rcases h.wakeOne_cases with ⟨rfl, hnobody⟩ | ⟨u, hu, rfl⟩
    · exact .wakeNone fun u hu ↦ hnobody u ((hasleep _ _).mpr hu)
    · have hu' := (hasleep _ _).mp hu
      rw [hupdate, hwake _ _ hu']
      exact .wakeOne hu'
  | wakeAll addr =>
    have hall : (fun t ↦ π (f' t)) = fun t ↦
        if M'.asleepOn (π (f t)) = some addr then M'.wake (π (f t)) else π (f t) := by
      rw [h.wakeAll_eq]
      funext t
      show π (if M.asleepOn (f t) = some (inner addr) then M.wake (f t) else f t) = _
      by_cases ht : M'.asleepOn (π (f t)) = some addr
      · rw [if_pos ht, if_pos ((hasleep _ _).mpr ht), hwake _ _ ht]
      · rw [if_neg ht, if_neg (mt (hasleep _ _).mp ht)]
    rw [hall]
    exact .wakeAll
  | unpark u =>
    rw [h.unpark_eq, hupdate, hunpark]
    exact .unpark

/-- The same for the delivery after a step of one thread, between machines with the same
addresses. -/
theorem Delivered.map_update {Shared' Local' Choice' : Type*}
    {M' : Machine Tid Shared' Local' Choice' Addr} (π : Local → Local')
    (hasleep : ∀ a addr, M.asleepOn a = some addr ↔ M'.asleepOn (π a) = some addr)
    (hwake : ∀ a addr, M'.asleepOn (π a) = some addr → π (M.wake a) = M'.wake (π a))
    (hunpark : ∀ a, π (M.unpark a) = M'.unpark (π a)) {signal : Signal Tid Addr}
    {f f' : Tid → Local} {t : Tid} {moved : Local}
    (h : M.Delivered signal (update f t moved) f') :
    M'.Delivered signal (update (fun u ↦ π (f u)) t (π moved)) fun u ↦ π (f' u) := by
  have hmapped : M'.Delivered signal (π ∘ update f t moved) fun u ↦ π (f' u) := by
    rw [← signal.map_id] at h
    exact h.map id π hasleep hwake hunpark
  rw [comp_update] at hmapped
  exact hmapped

section Classes

variable [Fintype Tid] {κ : Type*} [DecidableEq κ] {class_ : Local → κ} {addr : Addr} {k k' : κ}
  {f f' : Tid → Local}

/-- A `wakeOne` finds nobody asleep and changes no thread, or moves one thread from the class of
those asleep on the address to the class of those woken. -/
theorem Delivered.countAt_wakeOne (hasleep : ∀ a, M.asleepOn a = some addr ↔ class_ a = k)
    (hwake : ∀ a, class_ a = k → class_ (M.wake a) = k') (h : M.Delivered (.wakeOne addr) f f') :
    (f' = f ∧ countAt class_ k f = 0) ∨
      ∀ r, countAt class_ r f' + (if k = r then 1 else 0) =
        countAt class_ r f + if k' = r then 1 else 0 := by
  rcases h.wakeOne_cases with ⟨hsame, hnobody⟩ | ⟨u, hu, hmoved⟩
  · exact .inl ⟨hsame, countAt_eq_zero_iff.mpr fun u hu ↦ hnobody u ((hasleep _).mpr hu)⟩
  · have hbefore := (hasleep _).mp hu
    rw [hmoved]
    exact .inr (countAt_update hbefore (hwake _ hbefore))

/-- A `wakeAll` moves every thread from the class of those asleep on the address to the class of
those woken. -/
theorem Delivered.countAt_wakeAll (hasleep : ∀ a, M.asleepOn a = some addr ↔ class_ a = k)
    (hwake : ∀ a, class_ a = k → class_ (M.wake a) = k') (hne : k' ≠ k)
    (h : M.Delivered (.wakeAll addr) f f') (r : κ) :
    countAt class_ r f' + (if k = r then countAt class_ k f else 0) =
      countAt class_ r f + if k' = r then countAt class_ k f else 0 := by
  have hclass (u : Tid) : class_ (f' u) = if class_ (f u) = k then k' else class_ (f u) := by
    rw [h.wakeAll_eq]
    simp only [hasleep]
    split_ifs with hu
    · exact hwake _ hu
    · rfl
  by_cases hk : k = r
  · subst hk
    have hzero : countAt class_ k f' = 0 := countAt_eq_zero_iff.mpr fun u ↦ by
      rw [hclass]
      split_ifs with hu
      · exact hne
      · exact hu
    simp [hzero, hne]
  · by_cases hk' : k' = r
    · subst hk'
      simp only [hk, if_true, if_false, countAt, total, ← Finset.sum_add_distrib, add_zero]
      refine Finset.sum_congr rfl fun u _ ↦ ?_
      rw [hclass]
      by_cases hu : class_ (f u) = k
      · simp [hu, hne.symm]
      · simp [hu]
    · simp only [hk, hk', if_false, add_zero]
      refine total_congr fun u ↦ ?_
      rw [hclass]
      by_cases hu : class_ (f u) = k
      · simp [hu, hk, hk']
      · simp [hu]

variable {t : Tid} {moved : Local} {l l' : κ}

/-- The counts after a step that wakes nobody. -/
theorem Delivered.countAt_update_silent (hbefore : class_ (f t) = l) (hafter : class_ moved = l')
    (h : M.Delivered .silent (update f t moved) f') (r : κ) :
    countAt class_ r f' + (if l = r then 1 else 0) =
      countAt class_ r f + if l' = r then 1 else 0 := by
  rw [h.silent_eq]
  exact countAt_update hbefore hafter r

/-- The counts after a step that wakes a thread asleep on an address, if there is one. -/
theorem Delivered.countAt_update_wakeOne (hasleep : ∀ a, M.asleepOn a = some addr ↔ class_ a = k)
    (hwake : ∀ a, class_ a = k → class_ (M.wake a) = k') (hbefore : class_ (f t) = l)
    (hafter : class_ moved = l') (hl : l ≠ k) (hl' : l' ≠ k)
    (h : M.Delivered (.wakeOne addr) (update f t moved) f') :
    (countAt class_ k f = 0 ∧
        ∀ r, countAt class_ r f' + (if l = r then 1 else 0) =
          countAt class_ r f + if l' = r then 1 else 0) ∨
      ∀ r, countAt class_ r f' + (if l = r then 1 else 0) + (if k = r then 1 else 0) =
        countAt class_ r f + (if l' = r then 1 else 0) + if k' = r then 1 else 0 := by
  have hcount := countAt_update (f := f) hbefore hafter
  rcases h.countAt_wakeOne hasleep hwake with ⟨hthreads, hzero⟩ | hwoken
  · have hsame := hcount k
    rw [if_neg hl, if_neg hl', hzero] at hsame
    rw [hthreads]
    exact .inl ⟨hsame.symm, hcount⟩
  · refine .inr fun r ↦ ?_
    have hfirst := hcount r
    have hsecond := hwoken r
    omega

end Classes

end Delivery

section System

variable [DecidableEq Tid] [Fintype Tid] [DecidableEq Addr]
  (M : Machine Tid Shared Local Choice Addr)

/-- The interleaving of all threads from an initial pool. -/
def system (start : Pool Tid Shared Local) : System (Pool Tid Shared Local) (Label Tid Choice) where
  init := start
  step := fun p label ↦
    (M.step label.thread p.shared (p.threads label.thread) label.choice).bind
      fun (shared, moved, signal) ↦
        (M.deliver signal label.woken (update p.threads label.thread moved)).map
          fun threads ↦ { shared := shared, threads := threads }

variable {M} {start : Pool Tid Shared Local}

/-- A step of the pool is a step of one thread followed by the delivery of its signal. -/
theorem step_cases {p p' : Pool Tid Shared Local} {label : Label Tid Choice}
    (h : (M.system start).step p label = some p') :
    ∃ moved signal,
      M.step label.thread p.shared (p.threads label.thread) label.choice =
          some (p'.shared, moved, signal) ∧
        M.Delivered signal (update p.threads label.thread moved) p'.threads := by
  simp only [system, Option.bind_eq_some_iff, Option.map_eq_some_iff] at h
  obtain ⟨⟨shared, moved, signal⟩, hstep, threads, hdeliver, rfl⟩ := h
  exact ⟨moved, signal, hstep, delivered_of_deliver hdeliver⟩

/-- A step of one thread and a delivery of its signal make a step of the pool. -/
theorem exists_step {p p' : Pool Tid Shared Local} {t : Tid} {choice : Choice} {moved : Local}
    {signal : Signal Tid Addr}
    (hstep : M.step t p.shared (p.threads t) choice = some (p'.shared, moved, signal))
    (hdelivered : M.Delivered signal (update p.threads t moved) p'.threads) :
    ∃ woken, (M.system start).step p ⟨t, choice, woken⟩ = some p' := by
  obtain ⟨woken, hdeliver⟩ := hdelivered.exists_deliver
  refine ⟨woken, ?_⟩
  simp only [system, hstep, Option.bind_some, hdeliver, Option.map_some]

/-- A property of single threads. Assumes: it holds of every thread at the start, every step of a
thread keeps it, and so do wake-ups and unparks. -/
theorem forall_threads {ok : Pool Tid Shared Local → Label Tid Choice → Prop}
    {Q : Tid → Local → Prop} (hinit : ∀ t, Q t (start.threads t))
    (hstep : ∀ t shared a c shared' b signal, Q t a →
      M.step t shared a c = some (shared', b, signal) → Q t b)
    (hwake : ∀ t a, Q t a → Q t (M.wake a)) (hunpark : ∀ t a, Q t a → Q t (M.unpark a))
    {p : Pool Tid Shared Local} (h : (M.system start).ReachableWhen ok p) (t : Tid) :
    Q t (p.threads t) := by
  refine h.invariant (P := fun p ↦ ∀ t, Q t (p.threads t)) hinit ?_ t
  intro p label p' _ hQ _ hmove u
  obtain ⟨moved, signal, hlocal, hdelivered⟩ := step_cases hmove
  have hmid : Q u (update p.threads label.thread moved u) := by
    by_cases hu : u = label.thread
    · subst hu
      rw [update_self]
      exact hstep _ _ _ _ _ _ _ (hQ _) hlocal
    · rw [update_of_ne hu]
      exact hQ u
  rcases hdelivered.thread u with heq | ⟨_, _, heq⟩ | heq
  · rw [heq]; exact hmid
  · rw [heq]; exact hwake _ _ hmid
  · rw [heq]; exact hunpark _ _ hmid

end System

end Machine

end SyncPrimitives.Concurrency
