import HttpServer.ServerOwnership

/-!
# Every accepted descriptor has one owner or has been closed once

The refinement of the life cycle speaks of numbers at stages.  Here the `Fd`
objects are counted where they are: with the acceptor, in a slot of the queue or
with a worker.  An object that has been moved from owns nothing, so the counts
are those of the life cycle (`countP_owners`), and a thread owns at most one
descriptor at a time (`card_placeNumbers_acceptor`, `card_placeNumbers_worker`).
-/

namespace HttpServer

open Transition Threads Holdings

universe u v

section Places

variable {ω : Type u} {ρ : Type v}

/-- The objects of the acceptor, with the argument of `push`. -/
def ServerState.acceptorObjects (s : ServerState ω ρ) : List Fd :=
  s.acceptor.objects ++ (s.queue.pc .acceptor).items

/-- The objects of a worker, with the item that `pop` is about to return. -/
def ServerState.workerObjects (s : ServerState ω ρ) (w : ω) : List Fd :=
  (s.worker w).objects ++ (s.queue.pc (.worker w)).items

/-- The object owns the descriptor with this serial number. -/
def Descriptors.refers (os : Descriptors) (c : ℕ) (f : Fd) : Bool :=
  decide ((f.fd, c) ∈ os.table)

/-- All numbers that are owned, at whatever stage. -/
def Holdings.numbers : Holdings →+ Multiset Int where
  toFun h := h.1 + h.2.1 + h.2.2
  map_zero' := by simp
  map_add' a b := by
    simp only [Prod.fst_add, Prod.snd_add]
    abel

/-- The numbers that a thread owns, in its own code and in a call to the queue. -/
def placeNumbers (h : Holdings) (pc : QueuePc Fd) : Multiset Int :=
  h.numbers + (pc.items.map Fd.fd : List Int)

theorem QueuePc.items_eq_nil
    {α : Type u}
    {pc : QueuePc α}
    (hpush : pc.method ≠ some .push)
    (hpop : pc.method ≠ some .pop) :
    pc.items = [] := by
  cases pc <;> simp_all [QueuePc.method, QueuePc.items]

theorem QueuePc.length_items_le
    {α : Type u}
    (pc : QueuePc α) :
    pc.items.length ≤ 1 := by
  cases pc <;> simp [QueuePc.items]

@[simp] theorem numbers_waits (n : Int) : (waits n).numbers = {n} := by
  simp [Holdings.numbers, waits]

@[simp] theorem numbers_serves (n : Int) : (serves n).numbers = {n} := by
  simp [Holdings.numbers, serves]

@[simp] theorem numbers_leaves (n : Int) : (leaves n).numbers = {n} := by
  simp [Holdings.numbers, leaves]

section Count

variable {c : ℕ} {os : Descriptors}

theorem countP_singleton
    (f : Fd) :
    ({f.fd} : Multiset Int).countP (fun n => (n, c) ∈ os.table) = [f].countP (os.refers c) := by
  simp [Multiset.countP_eq_card_filter, Multiset.filter_singleton, List.countP_cons,
    Descriptors.refers]
  split_ifs <;> rfl

/-- Objects that own nothing do not count. -/
theorem AcceptorPc.countP_objects
    {pc : AcceptorPc}
    (hok : pc.Ok)
    (hnone : os.refers c .none = false) :
    pc.objects.countP (os.refers c) = pc.holdings.numbers.countP (fun n => (n, c) ∈ os.table) := by
  cases pc with
  | pushReturned client arg item accepted =>
      obtain ⟨rfl, rfl, hitem⟩ := hok
      cases accepted with
      | true =>
          rw [show item = Fd.none from hitem]
          simp [AcceptorPc.objects, AcceptorPc.holdings, hnone]
      | false => simp [AcceptorPc.objects, AcceptorPc.holdings, hnone, countP_singleton]
  | accepted client => simp [AcceptorPc.objects, AcceptorPc.holdings, countP_singleton]
  | counted client => simp [AcceptorPc.objects, AcceptorPc.holdings, countP_singleton]
  | pushing client arg =>
      obtain ⟨rfl, rfl⟩ := hok
      simp [AcceptorPc.objects, AcceptorPc.holdings, hnone]
  | dispatching client arg accepted =>
      obtain ⟨rfl, rfl⟩ := hok
      simp [AcceptorPc.objects, AcceptorPc.holdings, hnone]
  | dispatched client accepted =>
      rw [show client = Fd.none from hok]
      simp [AcceptorPc.objects, AcceptorPc.holdings, hnone]
  | _ => rfl

theorem WorkerPc.countP_objects
    {pc : WorkerPc}
    (hok : pc.Ok)
    (hnone : os.refers c .none = false) :
    pc.objects.countP (os.refers c) = pc.holdings.numbers.countP (fun n => (n, c) ∈ os.table) := by
  cases pc with
  | popped client => simp [WorkerPc.objects, WorkerPc.holdings, countP_singleton]
  | active client => simp [WorkerPc.objects, WorkerPc.holdings, countP_singleton]
  | serving client connection =>
      obtain ⟨rfl, _⟩ := hok
      simp [WorkerPc.objects, WorkerPc.holdings, hnone, countP_singleton]
  | recording client connection result =>
      obtain ⟨rfl, _⟩ := hok
      simp [WorkerPc.objects, WorkerPc.holdings, hnone, countP_singleton]
  | leaving client connection =>
      obtain ⟨rfl, _⟩ := hok
      simp [WorkerPc.objects, WorkerPc.holdings, hnone, countP_singleton]
  | unwinding client connection =>
      obtain ⟨rfl, _⟩ := hok
      simp [WorkerPc.objects, WorkerPc.holdings, hnone, countP_singleton]
  | caught client =>
      rw [show client = Fd.none from hok]
      simp [WorkerPc.objects, WorkerPc.holdings, hnone]
  | finishing client =>
      rw [show client = Fd.none from hok]
      simp [WorkerPc.objects, WorkerPc.holdings, hnone]
  | _ => rfl

theorem AcceptorPc.countP_leavingObjects
    {pc : AcceptorPc}
    (hok : pc.Ok)
    (hnone : os.refers c .none = false) :
    pc.leavingObjects.countP (os.refers c) =
      pc.holdings.2.2.countP (fun n => (n, c) ∈ os.table) := by
  cases pc with
  | pushReturned client arg item accepted =>
      obtain ⟨_, _, hitem⟩ := hok
      cases accepted with
      | true =>
          rw [show item = Fd.none from hitem]
          simp [AcceptorPc.leavingObjects, AcceptorPc.holdings, hnone]
      | false => exact (countP_singleton item).symm
  | _ => rfl

theorem WorkerPc.countP_leavingObjects
    (pc : WorkerPc) :
    pc.leavingObjects.countP (os.refers c) =
      pc.holdings.2.2.countP (fun n => (n, c) ∈ os.table) := by
  cases pc with
  | recording _ connection _ => exact (countP_singleton connection).symm
  | leaving _ connection => exact (countP_singleton connection).symm
  | unwinding _ connection => exact (countP_singleton connection).symm
  | _ => rfl

theorem countP_placeNumbers
    {h : Holdings}
    {objects : List Fd}
    {pc : QueuePc Fd}
    (hobjects : objects.countP (os.refers c) = h.numbers.countP (fun n => (n, c) ∈ os.table)) :
    (objects ++ pc.items).countP (os.refers c) =
      (placeNumbers h pc).countP (fun n => (n, c) ∈ os.table) := by
  rw [placeNumbers, Multiset.countP_add, ← hobjects, List.countP_append, Multiset.coe_countP,
    List.countP_map]
  rfl

end Count

section Bound

theorem AcceptorPc.card_numbers_le
    (pc : AcceptorPc) :
    pc.holdings.numbers.card ≤ 1 := by
  rcases pc with _ | _ | _ | _ | _ | _ | _ | ⟨_, _, _, _ | _⟩ | _ | _ | _ | _ | _ | _ | _ | _ <;>
    simp [AcceptorPc.holdings]

theorem WorkerPc.card_numbers_le
    (pc : WorkerPc) :
    pc.holdings.numbers.card ≤ 1 := by
  cases pc <;> simp [WorkerPc.holdings]

/-- A thread that holds an item in a call to the queue owns nothing else. -/
theorem card_placeNumbers_le
    {h : Holdings}
    {pc : QueuePc Fd}
    (hcard : h.numbers.card ≤ 1)
    (hcall : pc.items ≠ [] → h = 0) :
    (placeNumbers h pc).card ≤ 1 := by
  have hlength := pc.length_items_le
  rw [placeNumbers, Multiset.card_add, Multiset.coe_card, List.length_map]
  by_cases hitems : pc.items = []
  · rw [hitems]
    exact hcard
  · rw [hcall hitems, map_zero, Multiset.card_zero, zero_add]
    exact hlength

variable {s : ServerState ω ρ}

theorem card_placeNumbers_acceptor
    (hcalls : CallsInv s) :
    (placeNumbers s.acceptor.holdings (s.queue.pc .acceptor)).card ≤ 1 := by
  refine card_placeNumbers_le s.acceptor.card_numbers_le (fun hitems => ?_)
  by_cases hpush : (s.queue.pc .acceptor).method = some .push
  · obtain ⟨_, client, arg, hpc⟩ := hcalls.pushing hpush
    rw [hpc]
    rfl
  · by_cases hpop : (s.queue.pc .acceptor).method = some .pop
    · obtain ⟨w, hw, _⟩ := hcalls.popping hpop
      cases hw
    · exact absurd (QueuePc.items_eq_nil hpush hpop) hitems

theorem card_placeNumbers_worker
    (hcalls : CallsInv s)
    (w : ω) :
    (placeNumbers (s.worker w).holdings (s.queue.pc (.worker w))).card ≤ 1 := by
  refine card_placeNumbers_le (s.worker w).card_numbers_le (fun hitems => ?_)
  by_cases hpop : (s.queue.pc (.worker w)).method = some .pop
  · obtain ⟨w', hw, hpc⟩ := hcalls.popping hpop
    cases hw
    rw [hpc]
    rfl
  · by_cases hpush : (s.queue.pc (.worker w)).method = some .push
    · cases (hcalls.pushing hpush).1
    · exact absurd (QueuePc.items_eq_nil hpush hpop) hitems

theorem items_requester
    (hcalls : CallsInv s)
    (r : ρ) :
    (s.queue.pc (.requester r)).items = [] := by
  refine QueuePc.items_eq_nil ?_ ?_
  · intro hpush
    cases (hcalls.pushing hpush).1
  · intro hpop
    obtain ⟨w, hw, _⟩ := hcalls.popping hpop
    cases hw

end Bound

section Sum

variable [Fintype ω] [Fintype ρ] {s : ServerState ω ρ}

/-- The numbers owned, by place: the acceptor, the slots of the queue and the workers. -/
theorem numbers_holdings
    (hcalls : CallsInv s) :
    s.holdings.numbers =
      placeNumbers s.acceptor.holdings (s.queue.pc .acceptor) +
      (s.queue.shared.queue.map Fd.fd : List Int) +
      ∑ w, placeNumbers (s.worker w).holdings (s.queue.pc (.worker w)) := by
  have htransit : s.queue.inTransit.map Fd.fd =
      ∑ t, (((s.queue.pc t).items.map Fd.fd : List Int) : Multiset Int) +
        (s.queue.shared.queue.map Fd.fd : List Int) := by
    rw [QueueState.inTransit, Multiset.map_add, Multiset.map_coe]
    congr 1
    exact map_sum (Multiset.mapAddMonoidHom Fd.fd) _ _
  have hrequesters : ∑ r, (((s.queue.pc (.requester r)).items.map Fd.fd : List Int) :
      Multiset Int) = 0 := by
    refine Finset.sum_eq_zero (fun r _ => ?_)
    rw [items_requester hcalls]
    rfl
  have hnumbers : ∀ numbers : Multiset Int, Holdings.numbers (numbers, 0, 0) = numbers := by
    intro numbers
    simp [Holdings.numbers]
  simp only [ServerState.holdings, map_add, hnumbers, htransit, sum_threads, hrequesters, add_zero,
    total, map_sum, placeNumbers, Finset.sum_add_distrib]
  abel

variable {trace : List Lifecycle.Event} {a : Lifecycle.State Int}

theorem refers_none
    {os : Descriptors}
    {h : Holdings}
    (htracks : Tracks os h a)
    (c : ℕ) :
    os.refers c .none = false := by
  rw [Descriptors.refers, decide_eq_false_iff_not]
  intro hmem
  have hnonneg := htracks.nonneg _ hmem
  simp [Fd.none] at hnonneg

theorem Tracks.numbers_eq
    {os : Descriptors}
    {h : Holdings}
    (htracks : Tracks os h a) :
    h.numbers = a.inUse.map Prod.fst := by
  change h.1 + h.2.1 + h.2.2 = _
  rw [htracks.waiting, htracks.begun, htracks.leaving, Lifecycle.State.inUse, Multiset.map_add,
    Multiset.map_add]

/-- A descriptor among the numbers owned at some stage. -/
theorem Tracks.countP_part
    {os : Descriptors}
    {h : Holdings}
    (htracks : Tracks os h a)
    (hsound : Lifecycle.Sound trace a)
    {part : Multiset (Int × ℕ)}
    (hpart : part ≤ a.inUse)
    (c : ℕ) :
    (part.map Prod.fst).countP (fun n => (n, c) ∈ os.table) = (part.map Prod.snd).count c := by
  rw [← hsound.countP_keys hpart]
  refine Multiset.countP_congr rfl (fun n _ => ?_)
  rw [← htracks.table, Multiset.mem_coe]

/-- The objects that own a descriptor, by place, are those of the life cycle. -/
theorem countP_owners
    (hcalls : CallsInv s)
    (hlocal : LocalInv s)
    (hsound : Lifecycle.Sound trace a)
    (htracks : Tracks s.shared.os s.holdings a)
    {c : ℕ} :
    s.acceptorObjects.countP (s.shared.os.refers c) +
      s.queue.shared.queue.countP (s.shared.os.refers c) +
      ∑ w, (s.workerObjects w).countP (s.shared.os.refers c) =
        (a.inUse.map Prod.snd).count c := by
  have hnone := refers_none htracks c
  have hacceptor : s.acceptorObjects.countP (s.shared.os.refers c) = _ :=
    countP_placeNumbers (AcceptorPc.countP_objects hlocal.acceptor hnone)
  have hworker : ∀ w, (s.workerObjects w).countP (s.shared.os.refers c) = _ :=
    fun w => countP_placeNumbers (WorkerPc.countP_objects (hlocal.worker w) hnone)
  have hqueue : s.queue.shared.queue.countP (s.shared.os.refers c) =
      ((s.queue.shared.queue.map Fd.fd : List Int) : Multiset Int).countP
        (fun n => (n, c) ∈ s.shared.os.table) := by
    rw [Multiset.coe_countP, List.countP_map]
    rfl
  rw [← htracks.countP_part hsound le_rfl, ← htracks.numbers_eq, numbers_holdings hcalls,
    Multiset.countP_add, Multiset.countP_add, hacceptor, hqueue]
  congr 1
  rw [← Multiset.coe_countPAddMonoidHom, map_sum]
  exact Finset.sum_congr rfl (fun w _ => hworker w)

/-- The objects that are about to be destroyed are those of the descriptors that leave. -/
theorem countP_leaving
    (hlocal : LocalInv s)
    (hsound : Lifecycle.Sound trace a)
    (htracks : Tracks s.shared.os s.holdings a)
    {c : ℕ} :
    s.acceptor.leavingObjects.countP (s.shared.os.refers c) +
      ∑ w, (s.worker w).leavingObjects.countP (s.shared.os.refers c) =
        (a.leaving.map Prod.snd).count c := by
  have hpart : a.leaving ≤ a.inUse := Multiset.le_add_left _ _
  have hleaving : s.holdings.2.2 =
      s.acceptor.holdings.2.2 + ∑ w, (s.worker w).holdings.2.2 := by
    simp [ServerState.holdings, total, Prod.snd_sum]
  rw [← htracks.countP_part hsound hpart, ← htracks.leaving, hleaving, Multiset.countP_add,
    AcceptorPc.countP_leavingObjects hlocal.acceptor (refers_none htracks c)]
  congr 1
  rw [← Multiset.coe_countPAddMonoidHom, map_sum]
  exact Finset.sum_congr rfl (fun w _ => WorkerPc.countP_leavingObjects _)

/-- No more descriptors are open than the threads and the slots of the queue can own. -/
theorem length_table_le
    (hcalls : CallsInv s)
    (htracks : Tracks s.shared.os s.holdings a) :
    s.shared.os.table.length ≤ 1 + s.queue.shared.queue.length + Fintype.card ω := by
  have hlength : s.shared.os.table.length = s.holdings.numbers.card := by
    rw [htracks.numbers_eq, Multiset.card_map, ← htracks.table, Multiset.coe_card]
  have hworkers : ∑ w, (placeNumbers (s.worker w).holdings (s.queue.pc (.worker w))).card ≤
      Fintype.card ω := by
    have hsum := Finset.sum_le_card_nsmul Finset.univ
      (fun w => (placeNumbers (s.worker w).holdings (s.queue.pc (.worker w))).card) 1
      (fun w _ => card_placeNumbers_worker hcalls w)
    simpa using hsum
  have hacceptor := card_placeNumbers_acceptor hcalls
  rw [hlength, numbers_holdings hcalls, Multiset.card_add, Multiset.card_add, Multiset.coe_card,
    List.length_map, Multiset.card_sum]
  omega

end Sum

end Places

section Contract

variable {ω : Type u} {ρ : Type v}

def ServerEvent.closedSerial : ServerEvent ω ρ → Option ℕ
  | .descriptor (.closed c) => some c
  | _ => none

/-- The connection that a worker is about to serve. -/
def ServerEvent.constructedSerial : ServerEvent ω ρ → Option ℕ
  | .constructed _ serial => serial
  | _ => none

/-- The descriptor has been rejected, or its connection has come to an end. -/
def ServerEvent.Ends (c : ℕ) : ServerEvent ω ρ → Prop
  | .rejected serial => serial = some c
  | .constructorThrew _ serial => serial = some c
  | .serveReturned _ serial _ => serial = some c
  | .serveThrew _ serial => serial = some c
  | _ => False

theorem releasedSerials_life
    (trace : List (ServerEvent ω ρ)) :
    Lifecycle.serials Lifecycle.Event.releasedSerial (trace.filterMap ServerEvent.life) =
      trace.filterMap ServerEvent.closedSerial := by
  rw [Lifecycle.serials, List.filterMap_filterMap]
  congr 2
  funext e
  rcases e with
    _ | ⟨_ | _ | _⟩ | ⟨_ | _⟩ | ⟨_, _ | _⟩ | ⟨_, _ | _⟩ | ⟨_, _ | _, _⟩ | ⟨_, _ | _⟩ <;> rfl

theorem begunSerials_life
    (trace : List (ServerEvent ω ρ)) :
    Lifecycle.serials Lifecycle.Event.begunSerial (trace.filterMap ServerEvent.life) =
      trace.filterMap ServerEvent.constructedSerial := by
  rw [Lifecycle.serials, List.filterMap_filterMap]
  congr 2
  funext e
  rcases e with
    _ | ⟨_ | _ | _⟩ | ⟨_ | _⟩ | ⟨_, _ | _⟩ | ⟨_, _ | _⟩ | ⟨_, _ | _, _⟩ | ⟨_, _ | _⟩ <;> rfl

theorem left_mem_life
    {c : ℕ}
    {trace : List (ServerEvent ω ρ)}
    (h : ∃ e ∈ trace, e.Ends c) :
    Lifecycle.Event.left c ∈ trace.filterMap ServerEvent.life := by
  obtain ⟨e, he, hends⟩ := h
  refine List.mem_filterMap.2 ⟨e, he, ?_⟩
  cases e with
  | rejected serial =>
      rw [show serial = some c from hends]
      rfl
  | constructorThrew w serial =>
      rw [show serial = some c from hends]
      rfl
  | serveReturned w serial result =>
      rw [show serial = some c from hends]
      rfl
  | serveThrew w serial =>
      rw [show serial = some c from hends]
      rfl
  | _ => exact hends.elim

variable [Fintype ω] [Fintype ρ] [DecidableEq ω] [DecidableEq ρ]

/--
In every state that a run of the server reaches: an accepted descriptor is owned
by one object, with the acceptor, in one slot of the queue or with one worker, or
it has been closed once; no step concerns a number that is not open; a descriptor
that was rejected, or whose connection has come to an end, has been closed or is
owned by an object that is about to be destroyed; a descriptor is served at most
once; and the number of open descriptors is bounded.
-/
theorem descriptor_ownership
    {capacity : Nat}
    {q₀ : BoundedQueue Fd}
    (hmake : BoundedQueue.make capacity = .ok q₀)
    {trace : List (ServerEvent ω ρ)}
    {s : ServerState ω ρ}
    (hrun : Run ServerStep (ServerState.start ω ρ q₀) trace s) :
    (∀ c, (∃ number, .descriptor (.accepted c number) ∈ trace) →
      s.acceptorObjects.countP (s.shared.os.refers c) +
      s.queue.shared.queue.countP (s.shared.os.refers c) +
      ∑ w, (s.workerObjects w).countP (s.shared.os.refers c) +
      (trace.filterMap ServerEvent.closedSerial).count c = 1) ∧
    (∀ e ∈ trace, e.Regular) ∧
    (∀ c, (∃ e ∈ trace, e.Ends c) →
      s.acceptor.leavingObjects.countP (s.shared.os.refers c) +
      ∑ w, (s.worker w).leavingObjects.countP (s.shared.os.refers c) +
      (trace.filterMap ServerEvent.closedSerial).count c = 1) ∧
    (∀ c, (trace.filterMap ServerEvent.constructedSerial).count c ≤ 1) ∧
    s.shared.os.table.length ≤ Fintype.card ω + capacity + 1 := by
  obtain ⟨_, rfl⟩ := (BoundedQueue.make_eq_ok_iff _ _).1 hmake
  obtain ⟨⟨hcalls, hlocal⟩, hregular, a, ha, htracks⟩ := refines_of_run hrun rfl
  have hsound := Lifecycle.Sound.of_run ha
  have hfifo := fifoInv_of_run hmake (queueRun_of_run hrun).2
  refine ⟨?_, hregular, ?_, ?_, ?_⟩
  · rintro c ⟨number, haccepted⟩
    have hadmitted : Lifecycle.Event.admitted c ∈ trace.filterMap ServerEvent.life :=
      List.mem_filterMap.2 ⟨_, haccepted, rfl⟩
    have howned := hsound.owned_or_released hadmitted
    rw [releasedSerials_life, Multiset.coe_count] at howned
    rw [countP_owners hcalls hlocal hsound htracks, howned]
  · intro c hends
    have hleaving := hsound.leaving_or_released (left_mem_life hends)
    rw [releasedSerials_life, Multiset.coe_count] at hleaving
    rw [countP_leaving hlocal hsound htracks, hleaving]
  · intro c
    have honce := hsound.begun_once (c := c)
    rwa [begunSerials_life, Multiset.coe_count] at honce
  · have hcard := length_table_le hcalls htracks
    have hbounded := hfifo.bounded
    omega

/-- One client is accepted, dispatched and popped; serving it throws. -/
theorem exists_thrown_run :
    ∃ (trace : List (ServerEvent Unit Unit)) (s : ServerState Unit Unit),
      Run ServerStep (ServerState.start Unit Unit { capacity := 1 }) trace s ∧
      .descriptor (.accepted 0 5) ∈ trace ∧ .serveThrew () (some 0) ∈ trace := by
  have hstart : Run ServerStep (ServerState.start Unit Unit { capacity := 1 }) [] _ := .refl
  have hpolling := (hstart.tail (.environment .connects)).tail (.acceptor (.loopPolls rfl))
  have haccepting := (hpolling.tail (.acceptor (.pollReturns (Or.inl Nat.one_pos)))).tail
    (.acceptor .listenerReady)
  have haccepted := haccepting.tail
    (.acceptor (.accepts 5 Nat.one_pos (by decide) (by simp [ServerState.start])))
  have hpushing := (haccepted.tail (.acceptor .countsAccepted)).tail (.callsPush rfl)
  have hpushed := (hpushing.tail (.queueMoves (.pushInserts (t := .acceptor) rfl rfl))).tail
    (.queueMoves (.pushNotifies (t := .acceptor) rfl (.nobody (by rintro (_ | _ | _) <;> rfl))))
  have hpopping := hpushed.tail (.callsPop (w := ()) rfl)
  have hpopped := (hpopping.tail (.queueMoves (.popRemoves (t := .worker ()) rfl rfl))).tail
    (.queueMoves (.popNotifies (t := .worker ()) rfl (.nobody (by rintro (_ | _ | _) <;> rfl))))
  have hserving := (hpopped.tail (.worker (w := ()) .countsActive)).tail
    (.worker (w := ()) .constructs)
  have hthrown := hserving.tail (.worker (w := ()) .serveThrows)
  refine ⟨_, _, hthrown, ?_, List.mem_append_right _ (List.mem_singleton.2 rfl)⟩
  iterate 10 apply List.mem_append_left
  exact List.mem_append_right _ (List.mem_singleton.2 rfl)

theorem descriptor_ownership_thrown :
    ∃ (trace : List (ServerEvent Unit Unit)) (s : ServerState Unit Unit),
      Run ServerStep (ServerState.start Unit Unit { capacity := 1 }) trace s ∧
      .serveThrew () (some 0) ∈ trace ∧
      s.acceptor.leavingObjects.countP (s.shared.os.refers 0) +
        ∑ w, (s.worker w).leavingObjects.countP (s.shared.os.refers 0) +
        (trace.filterMap ServerEvent.closedSerial).count 0 = 1 ∧
      s.shared.os.table.length ≤ 3 := by
  have hmake : BoundedQueue.make 1 = .ok ({ capacity := 1 } : BoundedQueue Fd) := rfl
  obtain ⟨trace, s, hrun, _, hthrew⟩ := exists_thrown_run
  obtain ⟨_, _, hends, _, hlength⟩ := descriptor_ownership hmake hrun
  exact ⟨trace, s, hrun, hthrew, hends 0 ⟨_, hthrew, rfl⟩, hlength⟩

end Contract

end HttpServer
