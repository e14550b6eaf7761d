import HighCache.Net.HandoffSafety
import HighCache.Net.Serving

/-!
# A server with its connections

The handoff (`Server`) knows of a connection no more than its socket, and the event loop of a worker
(`EventLoop`) knows what its connections do, but not where their sockets come from. Both are views
of the same threads. Here they take their steps together: where a worker installs a socket, handles
an event of a connection or clears `connections_`, its event loop does so too, and whether the
handoff keeps a connection is what the event loop says.

The two views never part (`Inv.matched`). So a run of the whole is a run of the handoff and one of
each event loop, and what is proved of either holds of the whole. The engine of an event loop is
what its worker sees; what other workers do with it is in the surroundings.
-/

namespace HighCache

open KeyedList SharedHistory Transition

/-! ## The whole

A step of the whole is a step of the handoff. Steps that concern the connections of a worker are
taken by its event loop as well, and all others leave the event loops as they are. -/

/-- A server, and the event loops of its workers over an engine of `m` shards. -/
structure Assembly (n m : ℕ) where
  server : Server n
  loops : Fin n → EventLoop m

/-- A step of a worker that leaves `connections_` alone. -/
def WorkerStep.spares (x : Worker) : WorkerStep → Bool
  | .install installation => installation != .done
  | .handleEvent _ =>
    match x.phase with
    | .batch (.connection _ :: _) _ _ => false
    | _ => true
  | .clearConnections => false
  | _ => true

/-- A step of the server that leaves all connections alone. -/
def ServerStep.spares {n : ℕ} (s : Server n) : ServerStep n → Bool
  | .worker w step => step.spares (s.workers w)
  | _ => true

/-- How an installation ends for the handoff. -/
def Watching.installation : Watching → Installation
  | .removed => .closed
  | _ => .done

/-- The steps of the whole. -/
inductive AssemblyStep (n : ℕ) where
  | plain (step : ServerStep n)
  | install (w : Fin n) (watching : Watching)
  | event (w : Fin n) (events : UInt32) (reads : List RecvResult) (writes : List SendResult)
    (throw : Option Throw) (modified : Bool)
  | clear (w : Fin n)

namespace Assembly

variable {n m : ℕ}

/-- A new server. -/
def new (hn : 0 < n) (engines : Fin n → SharedEngine m) (outputLimit : ℕ) : Assembly n m :=
  ⟨.new hn, fun w ↦ .new (engines w) outputLimit⟩

/-- A step of the handoff, with the event loop of a worker after it. -/
def advance (step : ServerStep n) (w : Fin n) (loop : EventLoop m) (x : Assembly n m) :
    Option (Assembly n m) :=
  (x.server.step step).map fun server ↦ ⟨server, Function.update x.loops w loop⟩

/-- One step. There is none where the thread is elsewhere. -/
def step (hash : Bytes → UInt64) (x : Assembly n m) :
    AssemblyStep n → Except Fault (Option (Assembly n m))
  | .plain step =>
    if step.spares x.server then
      .ok ((x.server.step step).map fun server ↦ { x with server := server })
    else .ok none
  | .install w watching =>
    match (x.server.workers w).phase with
    | .installing _ (socket :: _) =>
      .ok (x.advance (.worker w (.install watching.installation)) w
        ((x.loops w).install socket.fd watching))
    | _ => .ok none
  | .event w events reads writes throw modified =>
    match (x.server.workers w).phase with
    | .batch (.connection source :: _) _ _ => do
      let loop ← (x.loops w).handleConnectionEvent hash source.fd events reads writes throw modified
      -- the handoff leaves it open whether the connection stays; the event loop has decided it
      let keep := (find Entry.fd source.fd loop.connections).isSome
      .ok (x.advance (.worker w (.handleEvent keep)) w loop)
    | _ => .ok none
  | .clear w => .ok (x.advance (.worker w .clearConnections) w (x.loops w).clear)

/-- A sequence of steps. -/
def run (hash : Bytes → UInt64) (x : Assembly n m) :
    List (AssemblyStep n) → Except Fault (Option (Assembly n m))
  | [] => .ok (some x)
  | step :: steps => do
    match ← x.step hash step with
    | none => .ok none
    | some x => run hash x steps

end Assembly

/-! ## The connections of a worker -/

theorem Worker.connections_of_spares {x y : Worker} {step : WorkerStep}
    {closed : List AcceptedSocket} (hspares : step.spares x = true)
    (h : x.step step = some (closed, y)) : y.connections = x.connections := by
  cases step with
  | requestStop =>
    cases h
    rfl
  | stopWake | check | interrupt | fail | endBatch | swapPending | endInstall | clearPending =>
    dsimp only [Worker.step] at h
    split at h
    · cases h
      rfl
    · cases h
  | epollWait events =>
    dsimp only [Worker.step] at h
    split at h
    · split at h
      · cases h
        rfl
      · cases h
    · cases h
  | handleEvent keep =>
    dsimp only [Worker.step] at h
    split at h
    · rename_i event events seen present hphase
      cases event with
      | wakeup =>
        cases h
        rfl
      | connection source =>
        simp only [WorkerStep.spares, hphase] at hspares
        cases hspares
    · cases h
  | install installation =>
    dsimp only [Worker.step] at h
    split at h
    · cases installation with
      | done => cases hspares
      | closed | kept =>
        cases h
        rfl
    · cases h
  | clearConnections => cases hspares

theorem Server.connections_of_spares {n : ℕ} {s s' : Server n} {step : ServerStep n}
    (hspares : step.spares s = true) (h : s.step step = some s') (w : Fin n) :
    (s'.workers w).connections = (s.workers w).connections := by
  -- a step that concerns a worker replaces that worker and no other
  have hworker : ∀ {w' : Fin n} {x : Worker}, x.connections = (s.workers w').connections →
      (Function.update s.workers w' x w).connections = (s.workers w).connections := by
    intro w' x hx
    by_cases hw : w = w'
    · subst hw
      rw [Function.update_self, hx]
    · rw [Function.update_of_ne hw]
  cases step with
  | accept fd =>
    dsimp only [Server.step] at h
    split at h
    · split at h
      · cases h
        rfl
      · cases h
    · cases h
  | push =>
    dsimp only [Server.step] at h
    split at h
    · split at h
      · cases h
        rfl
      · cases h
        exact hworker rfl
    · cases h
  | pushThrows =>
    dsimp only [Server.step] at h
    split at h
    · cases h
      rfl
    · cases h
  | wake =>
    dsimp only [Server.step] at h
    split at h
    · cases h
      exact hworker rfl
    · cases h
  | worker w' step =>
    dsimp only [Server.step] at h
    split at h
    · rename_i closed x hstep
      cases h
      exact hworker (Worker.connections_of_spares hspares hstep)
    · cases h

/-! ### The two lists -/

/-- The handoff and the event loop have the same connections. -/
def Matches {m : ℕ} (x : Worker) (loop : EventLoop m) : Prop :=
  (x.connections.map AcceptedSocket.fd).Perm (loop.connections.map Entry.fd)

namespace Matches

variable {m : ℕ} {x y : Worker} {loop loop' : EventLoop m}

theorem find_none_iff (h : Matches x loop) {fd : ℕ} :
    find AcceptedSocket.fd fd x.connections = none ↔ find Entry.fd fd loop.connections = none := by
  have hmem : fd ∈ x.connections.map AcceptedSocket.fd ↔ fd ∈ loop.connections.map Entry.fd :=
    h.mem_iff
  rw [find_eq_none, find_eq_none]
  constructor
  · intro hnone entry hentry hfd
    obtain ⟨socket, hsocket, hfd'⟩ :=
      List.mem_map.mp (hmem.mpr (List.mem_map.mpr ⟨entry, hentry, hfd⟩))
    exact hnone socket hsocket hfd'
  · intro hnone socket hsocket hfd
    obtain ⟨entry, hentry, hfd'⟩ :=
      List.mem_map.mp (hmem.mp (List.mem_map.mpr ⟨socket, hsocket, hfd⟩))
    exact hnone entry hentry hfd'

theorem install (h : Matches x loop) {socket : AcceptedSocket} {kept rest : List AcceptedSocket}
    (watching : Watching) :
    Matches (x.install socket kept rest watching.installation).2
      (loop.install socket.fd watching) := by
  cases hfind : find Entry.fd socket.fd loop.connections with
  | some entry =>
    obtain ⟨other, hother⟩ := Option.ne_none_iff_exists'.mp fun hnone ↦ by
      rw [h.find_none_iff.mp hnone] at hfind
      cases hfind
    have hloop : loop.install socket.fd watching = loop := by rw [EventLoop.install, hfind]
    rw [hloop]
    cases watching with
    | watched | unwatched =>
      have hsame : (x.install socket kept rest .done).2.connections = x.connections := by
        rw [Worker.install, hother]
      exact (List.Perm.of_eq (congrArg _ hsame)).trans h
    | removed => exact h
  | none =>
    have hnone := h.find_none_iff.mpr hfind
    rw [EventLoop.install, hfind]
    cases watching with
    | watched | unwatched =>
      have hcons : (x.install socket kept rest .done).2.connections = socket :: x.connections := by
        rw [Worker.install, hnone]
      exact (List.Perm.of_eq (congrArg _ hcons)).trans (h.cons socket.fd)
    | removed => exact h

end Matches

private theorem EventLoop.connections_of_event {m : ℕ} {hash : Bytes → UInt64}
    {loop loop' : EventLoop m}
    {fd : ℕ} {events : UInt32} {reads : List RecvResult} {writes : List SendResult}
    {throw : Option Throw} {modified : Bool}
    (h : loop.handleConnectionEvent hash fd events reads writes throw modified = .ok loop') :
    (find Entry.fd fd loop.connections = none ∧ loop' = loop)
      ∨ ∃ entry, find Entry.fd fd loop.connections = some entry
        ∧ (loop'.connections = without Entry.fd fd loop.connections
          ∨ ∃ entry', entry'.fd = fd
            ∧ loop'.connections = entry' :: without Entry.fd fd loop.connections) := by
  rw [handleConnectionEvent] at h
  cases hfind : find Entry.fd fd loop.connections with
  | none =>
    rw [hfind] at h
    cases h
    exact .inl ⟨rfl, rfl⟩
  | some entry =>
    rw [hfind] at h
    obtain ⟨⟨kept, c⟩, -, h⟩ := Except.bind_eq_ok_iff.mp h
    refine .inr ⟨entry, rfl, ?_⟩
    dsimp only at h
    -- the result of `modify_epoll` matters only where the connection is to be kept
    generalize (!(if (kept.getD false && !c.shouldClose) = true then modified else kept.getD false)
      || c.shouldClose) = gone at h
    cases gone with
    | true =>
      cases h
      exact .inl rfl
    | false =>
      cases h
      exact .inr ⟨{ entry with connection := c, interest := some c.desiredEvents },
        show entry.fd = fd from key_of_find hfind, rfl⟩

theorem Matches.event {m : ℕ} {hash : Bytes → UInt64} {x : Worker} {loop loop' : EventLoop m}
    {fd : ℕ} {events : UInt32} {reads : List RecvResult} {writes : List SendResult}
    {throw : Option Throw} {modified : Bool} (h : Matches x loop)
    (hnodup : (loop.connections.map Entry.fd).Nodup)
    (hevent : loop.handleConnectionEvent hash fd events reads writes throw modified = .ok loop') :
    Matches (x.handleConnectionEvent fd (find Entry.fd fd loop'.connections).isSome).2 loop' := by
  rcases EventLoop.connections_of_event hevent with ⟨hnone, rfl⟩ | ⟨entry, hsome, hloop⟩
  · rw [Worker.handleConnectionEvent, h.find_none_iff.mpr hnone]
    exact h
  · obtain ⟨socket, hsocket⟩ := Option.ne_none_iff_exists'.mp fun hnone ↦ by
      rw [h.find_none_iff.mp hnone] at hsome
      cases hsome
    -- with the descriptor taken out, both have the same ones left
    have hbefore : (x.connections.map AcceptedSocket.fd).Perm
        (fd :: (without Entry.fd fd loop.connections).map Entry.fd) := by
      have hkey := key_of_find hsome
      subst hkey
      exact h.trans ((perm_cons_without hnodup (mem_of_find hsome)).map Entry.fd)
    rw [Worker.handleConnectionEvent, hsocket]
    rcases hloop with hgone | ⟨entry', hfd, hkept⟩
    · have hkeep : (find Entry.fd fd loop'.connections).isSome = false := by
        rw [hgone, find_eq_none.mpr fun other hother ↦ (mem_without.mp hother).2]
        rfl
      rw [hkeep]
      show ((x.connections.erase socket).map AcceptedSocket.fd).Perm
        (loop'.connections.map Entry.fd)
      have herase := (List.perm_cons_erase (mem_of_find hsocket)).map AcceptedSocket.fd
      rw [List.map_cons, key_of_find hsocket] at herase
      rw [hgone]
      exact (herase.symm.trans hbefore).cons_inv
    · have hkeep : (find Entry.fd fd loop'.connections).isSome = true := by
        rw [hkept, ← hfd, find_cons_self]
        rfl
      rw [hkeep, Matches, hkept, List.map_cons, hfd]
      exact hbefore

namespace Assembly

variable {n m : ℕ} {hash : Bytes → UInt64} {x x' : Assembly n m}

/-- The event loops have the connections of the handoff. -/
structure Inv (x : Assembly n m) : Prop where
  matched : ∀ w, Matches (x.server.workers w) (x.loops w)
  tidy : ∀ w, (x.loops w).Tidy

/-- What a step of the whole is for the handoff and for the event loops. -/
structure Projects (hash : Bytes → UInt64) (x x' : Assembly n m) : Prop where
  server : ∃ step, x.server.step step = some x'.server
  loops : ∀ w, x'.loops w = x.loops w ∨ ∃ step u, (x.loops w).step hash step = .ok (u, x'.loops w)

/-- A worker and its event loop have taken a step together. -/
theorem Inv.advance (h : x.Inv) {step : WorkerStep} {w : Fin n} {loop : EventLoop m}
    (loopStep : LoopStep) {u : Unit} (hadvance : x.advance (.worker w step) w loop = some x')
    (hloop : (x.loops w).step hash loopStep = .ok (u, loop))
    (hmatches : ∀ closed y, (x.server.workers w).step step = some (closed, y) → Matches y loop) :
    Projects hash x x' ∧ x'.Inv := by
  obtain ⟨server, hserver, rfl⟩ := Option.map_eq_some_iff.mp hadvance
  have hstep := hserver
  dsimp only [Server.step] at hserver
  split at hserver
  · rename_i closed y hworker
    cases hserver
    refine ⟨⟨⟨_, hstep⟩, ?_⟩, fun w' ↦ ?_, ?_⟩
    · exact (Function.forall_update_iff x.loops fun w' loop' ↦
        loop' = x.loops w' ∨ ∃ step u, (x.loops w').step hash step = .ok (u, loop')).mpr
        ⟨.inr ⟨loopStep, u, hloop⟩, fun _ _ ↦ .inl rfl⟩
    · show Matches (Function.update x.server.workers w y w') (Function.update x.loops w loop w')
      by_cases hw : w' = w
      · subst hw
        rw [Function.update_self, Function.update_self]
        exact hmatches closed y hworker
      · rw [Function.update_of_ne hw, Function.update_of_ne hw]
        exact h.matched w'
    · exact (Function.forall_update_iff x.loops fun _ loop' ↦ loop'.Tidy).mpr
        ⟨(h.tidy w).takes (EventLoop.takes_step hloop), fun w' _ ↦ h.tidy w'⟩
  · cases hserver

theorem Inv.step (h : x.Inv) {step : AssemblyStep n} (hstep : x.step hash step = .ok (some x')) :
    Projects hash x x' ∧ x'.Inv := by
  cases step with
  | plain step =>
    dsimp only [Assembly.step] at hstep
    split at hstep
    · rename_i hspares
      obtain ⟨server, hserver, rfl⟩ := Option.map_eq_some_iff.mp (Except.ok.inj hstep)
      refine ⟨⟨⟨step, hserver⟩, fun w ↦ .inl rfl⟩, fun w ↦ ?_, h.tidy⟩
      show Matches (server.workers w) (x.loops w)
      rw [Matches, Server.connections_of_spares hspares hserver w]
      exact h.matched w
    · cases hstep
  | install w watching =>
    dsimp only [Assembly.step] at hstep
    split at hstep
    · rename_i kept socket rest hphase
      refine h.advance (.install socket.fd watching) (Except.ok.inj hstep) rfl
        fun closed y hworker ↦ ?_
      dsimp only [Worker.step] at hworker
      rw [hphase] at hworker
      obtain rfl : _ = y := congrArg Prod.snd (Option.some.inj hworker)
      exact (h.matched w).install watching
    · cases hstep
  | event w events reads writes throw modified =>
    dsimp only [Assembly.step] at hstep
    split at hstep
    · rename_i source batch seen present hphase
      obtain ⟨loop, hevent, hstep⟩ := Except.bind_eq_ok_iff.mp hstep
      -- the handoff is told what the event loop has decided
      refine h.advance (u := ()) (.event source.fd events reads writes throw modified)
        (Except.ok.inj hstep) ?_ fun closed y hworker ↦ ?_
      · rw [EventLoop.step, hevent, Except.ok_bind_eq]
      · dsimp only [Worker.step] at hworker
        rw [hphase] at hworker
        obtain rfl : _ = y := congrArg Prod.snd (Option.some.inj hworker)
        exact (h.matched w).event (h.tidy w).fds hevent
    · cases hstep
  | clear w =>
    refine h.advance .clear (Except.ok.inj hstep) rfl fun closed y hworker ↦ ?_
    dsimp only [Worker.step] at hworker
    split at hworker
    · cases hworker
      exact .nil
    · cases hworker

theorem Inv.run (steps : List (AssemblyStep n)) : ∀ {x x' : Assembly n m}, x.Inv →
    x.run hash steps = .ok (some x') →
      x'.Inv ∧ (∃ serverSteps, x.server.run serverSteps = some x'.server)
        ∧ ∀ w, ∃ loopSteps us,
          Transition.run (EventLoop.step hash) (x.loops w) loopSteps = .ok (us, x'.loops w) := by
  induction steps with
  | nil =>
    intro x x' h hrun
    cases hrun
    exact ⟨h, ⟨[], rfl⟩, fun _ ↦ ⟨[], [], rfl⟩⟩
  | cons step steps ih =>
    intro x x' h hrun
    rw [Assembly.run] at hrun
    obtain ⟨next, hstep, hrest⟩ := Except.bind_eq_ok_iff.mp hrun
    cases next with
    | none => cases hrest
    | some x₁ =>
      obtain ⟨hprojects, h₁⟩ := h.step hstep
      obtain ⟨h', ⟨serverSteps, hserver⟩, hloops⟩ := ih h₁ hrest
      obtain ⟨serverStep, hserverStep⟩ := hprojects.server
      refine ⟨h', ⟨serverStep :: serverSteps, ?_⟩, fun w ↦ ?_⟩
      · rw [Server.run, List.foldlM_cons, hserverStep]
        exact hserver
      · obtain ⟨loopSteps, us, hloop⟩ := hloops w
        -- a step of another worker leaves no trace in the run of this event loop
        rcases hprojects.loops w with hsame | ⟨loopStep, u, hloopStep⟩
        · exact ⟨loopSteps, us, hsame ▸ hloop⟩
        · refine ⟨loopStep :: loopSteps, u :: us, ?_⟩
          rw [Transition.run_cons hloopStep, hloop]
          rfl

/-! ## Every run -/

theorem inv_new (hn : 0 < n) (engines : Fin n → SharedEngine m) (outputLimit : ℕ) :
    (new hn engines outputLimit).Inv :=
  ⟨fun _ ↦ .nil, fun _ ↦ EventLoop.tidy_new _ _⟩

/-- **What is promised of the whole.** -/
structure Coherent (hash : Bytes → UInt64) (hn : 0 < n) (engines : Fin n → SharedEngine m)
    (outputLimit : ℕ) (x : Assembly n m) : Prop where
  /-- It is a run of the handoff, … -/
  server : ∃ serverSteps, (Server.new hn).run serverSteps = some x.server
  /-- … and a run of each event loop. -/
  loops : ∀ w, ∃ loopSteps us,
    Transition.run (EventLoop.step hash) (.new (engines w) outputLimit) loopSteps
      = .ok (us, x.loops w)
  /-- They have the same connections, so that each connection has a socket, which is open. -/
  connections : ∀ w, ((x.server.workers w).connections.map AcceptedSocket.fd).Perm
    ((x.loops w).connections.map Entry.fd)
  owned : ∀ w, ∀ entry ∈ (x.loops w).connections, ∃ socket ∈ (x.server.workers w).connections,
    socket.fd = entry.fd ∧ socket ∈ x.server.accepted ∧ socket ∉ x.server.closed
  /-- No descriptor is served by two workers. -/
  apart : ∀ w w', ∀ entry ∈ (x.loops w).connections, ∀ entry' ∈ (x.loops w').connections,
    entry.fd = entry'.fd → w = w'
  /-- A worker that is through serves nobody. -/
  finished : ∀ w, (x.server.workers w).phase = .finished → (x.loops w).connections = []

/-- **The handoff and the event loops of a server never part**, whatever the threads and the kernel
do. -/
theorem run_coherent (hash : Bytes → UInt64) (hn : 0 < n) (engines : Fin n → SharedEngine m)
    (outputLimit : ℕ) (steps : List (AssemblyStep n)) {x : Assembly n m}
    (hrun : (new hn engines outputLimit).run hash steps = .ok (some x)) :
    Coherent hash hn engines outputLimit x := by
  obtain ⟨h, ⟨serverSteps, hserver⟩, hloops⟩ := (inv_new hn engines outputLimit).run steps hrun
  have hinv := Server.Inv.run serverSteps (Server.inv_new hn) hserver
  obtain ⟨place, hplaced, hall⟩ := hinv.placed
  have hplace : ∀ w, ∀ entry ∈ (x.loops w).connections,
      ∃ socket, socket.fd = entry.fd ∧ place socket = some (.worker w .connections) := by
    intro w entry hentry
    obtain ⟨socket, hsocket, hfd⟩ :=
      List.mem_map.mp ((h.matched w).symm.subset (List.mem_map_of_mem hentry))
    exact ⟨socket, hfd, hplaced.mem_iff.mp hsocket⟩
  have hopen : ∀ {w socket}, place socket = some (.worker w .connections) →
      socket ∈ x.server.accepted ∧ socket ∉ x.server.closed := by
    intro w socket hsocket
    refine ⟨(hall socket).mpr (by rw [hsocket]; rintro ⟨⟩), fun hclosed ↦ ?_⟩
    exact (hplaced.unique hsocket).2 .closed (by rintro ⟨⟩) hclosed
  refine ⟨⟨serverSteps, hserver⟩, hloops, h.matched, ?_, ?_, ?_⟩
  · intro w entry hentry
    obtain ⟨socket, hfd, hsocket⟩ := hplace w entry hentry
    exact ⟨socket, hplaced.mem_iff.mpr hsocket, hfd, hopen hsocket⟩
  · intro w w' entry hentry entry' hentry' heq
    obtain ⟨socket, hfd, hsocket⟩ := hplace w entry hentry
    obtain ⟨socket', hfd', hsocket'⟩ := hplace w' entry' hentry'
    -- both are open, so the kernel has given the descriptor out once
    have hsame := hinv.fds socket (hopen hsocket).1 (hopen hsocket).2 socket' (hopen hsocket').1
      (hopen hsocket').2 (hfd.trans (heq.trans hfd'.symm))
    rw [hsame, hsocket'] at hsocket
    cases hsocket
    rfl
  · intro w hphase
    have hnone : (x.server.workers w).connections = [] := (hinv.workers w).disconnected (by
      rw [hphase]
      exact trivial)
    have hperm := h.matched w
    rw [Matches, hnone, List.map_nil] at hperm
    exact List.map_eq_nil_iff.mp hperm.symm.eq_nil

/-- What a worker does that has been waked for one socket. -/
private def installOne (w : Fin 2) : List (AssemblyStep 2) :=
  [.plain (.worker w .check), .plain (.worker w (.epollWait [.wakeup])),
    .plain (.worker w (.handleEvent true)), .plain (.worker w .endBatch),
    .plain (.worker w .swapPending), .install w .watched, .plain (.worker w .endInstall)]

/-- What a worker does when epoll reports an event of a connection. -/
private def serveOne (w : Fin 2) (source : AcceptedSocket) (events : UInt32)
    (reads : List RecvResult) (writes : List SendResult) : List (AssemblyStep 2) :=
  [.plain (.worker w .check), .plain (.worker w (.epollWait [.connection source])),
    .event w events reads writes none true, .plain (.worker w .endBatch)]

/-- Each of two workers gets a client. The first client goes, the second is answered. -/
private def twoWorkers : List (AssemblyStep 2) :=
  [.plain (.accept 7), .plain .push, .plain .wake, .plain (.accept 8), .plain .push, .plain .wake]
    ++ installOne 0 ++ installOne 1 ++ serveOne 0 ⟨0, 7⟩ epollRdHup [.closed] []
    ++ serveOne 1 ⟨1, 8⟩ epollIn [.ofBytes (requestFrame 1 10 [])] []
    ++ serveOne 1 ⟨1, 8⟩ epollOut [] [.ofCount 20]

/-- The first worker has closed its connection, for the handoff and in its event loop. -/
theorem run_coherent_two_workers :
    ∃ x, (new Nat.two_pos (fun _ ↦ .quiet) 4096).run (fun _ ↦ 0) twoWorkers = .ok (some x)
      ∧ x.server.closed = [⟨0, 7⟩] ∧ (x.loops 0).connections.map Entry.fd = []
      ∧ (x.loops 1).connections.map Entry.fd = [8]
      ∧ Coherent (fun _ ↦ 0) Nat.two_pos (fun _ ↦ .quiet) 4096 x := by
  have hstate : ((new Nat.two_pos (fun _ ↦ .quiet) 4096).run (fun _ ↦ 0)
      twoWorkers).toOption.map (fun r ↦ r.map fun x ↦ (x.server.closed,
        (x.loops 0).connections.map Entry.fd, (x.loops 1).connections.map Entry.fd))
      = some (some ([⟨0, 7⟩], [], [8])) := by decide +kernel
  cases hrun : (new Nat.two_pos (fun _ ↦ .quiet) 4096).run (fun _ ↦ 0) twoWorkers with
  | error fault =>
    rw [hrun] at hstate
    cases hstate
  | ok r =>
    rw [hrun] at hstate
    cases r with
    | none => cases hstate
    | some x =>
      obtain ⟨hclosed, hfirst, hsecond⟩ : x.server.closed = [⟨0, 7⟩]
          ∧ (x.loops 0).connections.map Entry.fd = []
          ∧ (x.loops 1).connections.map Entry.fd = [8] := by
        simpa [Except.toOption] using hstate
      exact ⟨x, rfl, hclosed, hfirst, hsecond,
        run_coherent (fun _ ↦ 0) Nat.two_pos (fun _ ↦ .quiet) 4096 twoWorkers hrun⟩

/-- **Every client of a server reads the responses to its own requests**, whichever worker it was
given to, and each worker attends to all its connections. -/
theorem run_serves (hash : Bytes → UInt64) (hn : 0 < n) (capacity outputLimit : UInt64)
    {e₀ e : CacheEngine m} (hnew : CacheEngine.new capacity.toNat m = .ok e₀)
    (hreach : Reachable (CacheEngine.call hash) e₀ e) (upcoming : Fin n → ℕ → Surroundings m)
    (steps : List (AssemblyStep n)) {x : Assembly n m}
    (hrun : (new hn (fun w ↦ ⟨e, upcoming w⟩) outputLimit.toNat).run hash steps = .ok (some x))
    (w : Fin n) :
    (x.loops w).Attentive
      ∧ ∃ history : EventLoop.EngineHistory m,
        EventLoop.Follows hash ⟨e, upcoming w⟩ history (x.loops w).engine
        ∧ ∀ entry ∈ (x.loops w).entries, EventLoop.Served hash e history (x.loops w) entry := by
  obtain ⟨-, -, hloops⟩ := (inv_new hn (fun w ↦ ⟨e, upcoming w⟩) _).run steps hrun
  obtain ⟨loopSteps, us, hloop⟩ := hloops w
  obtain ⟨history, hlinear, htidy⟩ := (EventLoop.linear_new ⟨e, upcoming w⟩ _).run loopSteps
    (EventLoop.tidy_new _ _) hloop
  exact ⟨hlinear.attentive hnew hreach htidy, history, hlinear.toFollows,
    fun entry hentry ↦ hlinear.served hentry⟩

/-- The second client is answered. -/
theorem run_serves_two_workers :
    ∃ x, (new Nat.two_pos (fun _ ↦ .quiet) (4096 : UInt64).toNat).run (fun _ ↦ 0) twoWorkers
        = .ok (some x)
      ∧ (x.loops 1).entries.map (fun entry ↦ entry.connection.socket.sent) = [responseFrame 1 10 []]
      ∧ (x.loops 1).Attentive
      ∧ ∃ history, EventLoop.Follows (fun _ ↦ 0) .quiet history (x.loops 1).engine
        ∧ ∀ entry ∈ (x.loops 1).entries,
          EventLoop.Served (fun _ ↦ 0) SharedEngine.quiet.engine history (x.loops 1) entry := by
  have hstate : ((new Nat.two_pos (fun _ ↦ .quiet) (4096 : UInt64).toNat).run (fun _ ↦ 0)
      twoWorkers).toOption.map (fun r ↦ r.map fun x ↦
        (x.loops 1).entries.map fun entry ↦ entry.connection.socket.sent)
      = some (some [responseFrame 1 10 []]) := by decide +kernel
  cases hrun : (new Nat.two_pos (fun _ ↦ .quiet) (4096 : UInt64).toNat).run (fun _ ↦ 0)
      twoWorkers with
  | error fault =>
    rw [hrun] at hstate
    cases hstate
  | ok r =>
    rw [hrun] at hstate
    cases r with
    | none => cases hstate
    | some x =>
      exact ⟨x, rfl, Option.some.inj (Option.some.inj hstate),
        run_serves (fun _ ↦ 0) Nat.two_pos 100 4096 SharedEngine.new_quiet (.refl _ _)
          (fun _ ↦ SharedEngine.quiet.upcoming) twoWorkers hrun 1⟩

end Assembly

end HighCache
