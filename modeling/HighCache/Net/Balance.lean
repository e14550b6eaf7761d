import HighCache.Net.HandoffSafety
import Mathlib.Data.Int.CardIntervalMod

/-!
# The sockets are dealt out in turn

The acceptor hands the first socket to the first worker, the next one to the second, and begins
again after the last. What a worker was given is read off the run, as what came to its `pending_`
(`Server.given`); what `enqueue` did not take, because the worker was asked to stop or because there
was no memory, is `Server.refused`. Together they are the turns of the worker, one in `n`.

No step of a worker hands a socket on to another worker, so a worker has no sockets but those it was
given. The turns go on as long as no more than `2 ^ 64` sockets have been accepted; when
`next_worker_` wraps, they start anew with the first worker.
-/

namespace HighCache

/-! ## What a worker does with its sockets -/

theorem Worker.Transfer.mem {x x' : Worker} {closed moved : List AcceptedSocket}
    {p q : Option Spot} (h : Worker.Transfer x x' closed p q moved) {spot : Spot}
    {socket : AcceptedSocket} (hmem : socket ∈ x'.sockets spot) :
    ∃ spot', socket ∈ x.sockets spot' := by
  have hspots : ∀ r, socket ∈ x.spots [] r → ∃ spot', socket ∈ x.sockets spot' := by
    rintro (_ | spot') hr
    · cases hr
    · exact ⟨spot', hr⟩
  have hmem : socket ∈ x'.spots closed (some spot) := hmem
  by_cases hq : some spot = q
  · subst hq
    rcases List.mem_append.mp (h.target.subset hmem) with hmoved | hstayed
    · exact hspots p (h.source.symm.subset (List.mem_append_left _ hmoved))
    · exact hspots _ hstayed
  · by_cases hp : some spot = p
    · subst hp
      exact hspots _ (h.source.symm.subset (List.mem_append_right _ hmem))
    · rw [h.rest _ hp hq] at hmem
      exact hspots _ hmem

private theorem Worker.pending_step {x x' : Worker} {closed : List AcceptedSocket}
    {step : WorkerStep}
    (h : x.step step = some (closed, x')) : x'.pending = x.pending ∨ x'.pending = [] := by
  cases takes_step h with
  | swapPending | clearPending => exact Or.inr rfl
  | _ => exact Or.inl rfl

namespace Server

variable {n : ℕ} {s s' : Server n} {w : Fin n}

/-! ## What comes to a worker

Defined by the states before and after each step, not by the acceptor's counter: whatever is in
`pending_` after a step of the acceptor and was not there before. -/

/-- The sockets that a step brings to `pending_` of a worker. -/
def arrivals (w : Fin n) (s s' : Server n) : List AcceptedSocket :=
  (s'.workers w).pending.filter fun socket ↦ socket ∉ (s.workers w).pending

/-- The sockets that came to `pending_` of a worker in a run. -/
def given (w : Fin n) (s : Server n) : List (ServerStep n) → List AcceptedSocket
  | [] => []
  | step :: steps =>
    match s.step step with
    | none => []
    | some s' => arrivals w s s' ++ given w s' steps

/-- The sockets that `enqueue` does not take in a step, because the worker was asked to stop or
because `push_back` throws. -/
def refusals (w : Fin n) (s : Server n) : ServerStep n → List AcceptedSocket
  | .push =>
    match s.acceptor with
    | .holding socket w' => if w' = w ∧ (s.workers w).stopRequested = true then [socket] else []
    | _ => []
  | .pushThrows =>
    match s.acceptor with
    | .holding socket w' => if w' = w then [socket] else []
    | _ => []
  | _ => []

/-- The sockets that `enqueue` of a worker did not take in a run. -/
def refused (w : Fin n) (s : Server n) : List (ServerStep n) → List AcceptedSocket
  | [] => []
  | step :: steps =>
    match s.step step with
    | none => []
    | some s' => refusals w s step ++ refused w s' steps

/-- The socket in the hand of the acceptor, if it is for this worker. -/
def held (w : Fin n) (s : Server n) : List AcceptedSocket :=
  match s.acceptor with
  | .holding socket w' => if w' = w then [socket] else []
  | _ => []

private theorem held_of_holding {socket : AcceptedSocket} {w' : Fin n}
    (h : s.acceptor = .holding socket w') : s.held w = if w' = w then [socket] else [] := by
  rw [held, h]

theorem arrivals_of_eq (h : (s'.workers w).pending = (s.workers w).pending) :
    arrivals w s s' = [] := by
  rw [arrivals, h, List.filter_eq_nil_iff]
  intro socket hmem
  simp [hmem]

private theorem arrivals_of_nil (h : (s'.workers w).pending = []) : arrivals w s s' = [] := by
  rw [arrivals, h, List.filter_nil]

/-! ## The turns

The specification: socket number `i` is the turn of worker `i` modulo the number of workers. -/

/-- The worker whose turn it was when a socket was accepted. -/
def turnOf (n : ℕ) (socket : AcceptedSocket) : ℕ := socket.id % 2 ^ 64 % n

/-- Of the sockets with the turn of a worker it was given those in `g`, and those in `r` were
refused. The next turn is that of the next socket. -/
structure Dealt (g r : Fin n → List AcceptedSocket) (s : Server n) : Prop where
  next : s.nextWorker = UInt64.ofNat s.accepted.length
  ids : s.accepted.map AcceptedSocket.id = (List.range s.accepted.length).reverse
  dealt : ∀ w, (g w ++ r w ++ s.held w).Perm (s.accepted.filter fun socket ↦ turnOf n socket = w)
  workers : ∀ w spot, ∀ socket ∈ (s.workers w).sockets spot, socket ∈ g w

variable {g r : Fin n → List AcceptedSocket}

theorem dealt_new (h : 0 < n) : Dealt (fun _ ↦ []) (fun _ ↦ []) (new h) where
  next := rfl
  ids := rfl
  dealt := fun _ ↦ .nil
  workers := by rintro w (_ | _ | _) socket ⟨⟩

theorem Dealt.congr (h : Dealt g r s) (hnext : s'.nextWorker = s.nextWorker)
    (haccepted : s'.accepted = s.accepted) (hheld : ∀ w, s'.held w = s.held w)
    (hworkers : ∀ w spot, ∀ socket ∈ (s'.workers w).sockets spot,
      ∃ spot', socket ∈ (s.workers w).sockets spot') : Dealt g r s' where
  next := by rw [hnext, haccepted, h.next]
  ids := by rw [haccepted, h.ids]
  dealt w := by rw [haccepted, hheld w]; exact h.dealt w
  workers w spot socket hmem := by
    obtain ⟨spot', hbefore⟩ := hworkers w spot socket hmem
    exact h.workers w spot' socket hbefore

theorem Dealt.accept (h : Dealt g r s) (hidle : s.acceptor = .idle) (fd : ℕ) :
    Dealt g r { s with
      acceptor := .holding ⟨s.accepted.length, fd⟩ s.chosen
      nextWorker := s.nextWorker + 1
      accepted := ⟨s.accepted.length, fd⟩ :: s.accepted } where
  next := by
    rw [h.next, List.length_cons]
    exact (UInt64.ofNat_add s.accepted.length 1).symm
  ids := by rw [List.map_cons, h.ids, List.length_cons, List.range_succ, List.reverse_concat]
  dealt w := by
    have hdealt := h.dealt w
    have hnone : s.held w = [] := by rw [held, hidle]
    have hturn : turnOf n ⟨s.accepted.length, fd⟩ = s.chosen := by
      show s.accepted.length % 2 ^ 64 % n = s.nextWorker.toNat % n
      rw [h.next, UInt64.toNat_ofNat']
    rw [hnone, List.append_nil] at hdealt
    show (g w ++ r w ++ if s.chosen = w then [_] else []).Perm (List.filter _ (_ :: s.accepted))
    rw [List.filter_cons]
    by_cases hw : s.chosen = w
    · rw [if_pos hw, if_pos (decide_eq_true (hturn.trans (congrArg _ hw)))]
      exact (List.perm_append_singleton _ _).trans (hdealt.cons _)
    · rw [if_neg hw, List.append_nil,
        if_neg fun heq ↦ hw (Fin.ext (hturn.symm.trans (of_decide_eq_true heq)))]
      exact hdealt
  workers := h.workers

theorem Dealt.hand (h : Dealt g r s) {socket : AcceptedSocket} {w' : Fin n}
    (hholding : s.acceptor = .holding socket w') {g' r' : Fin n → List AcceptedSocket}
    (hnext : s'.nextWorker = s.nextWorker) (haccepted : s'.accepted = s.accepted)
    (hheld : ∀ w, s'.held w = [])
    (hdealt : ∀ w, (g' w ++ r' w).Perm (g w ++ r w ++ if w' = w then [socket] else []))
    (hworkers : ∀ w spot, ∀ socket ∈ (s'.workers w).sockets spot, socket ∈ g' w) :
    Dealt g' r' s' where
  next := by rw [hnext, haccepted, h.next]
  ids := by rw [haccepted, h.ids]
  dealt w := by
    have hbefore := h.dealt w
    rw [held_of_holding hholding] at hbefore
    rw [hheld w, List.append_nil, haccepted]
    exact (hdealt w).trans hbefore
  workers := hworkers

private theorem mem_setWorker {w w' : Fin n} {x : Worker} {spot : Spot} {socket : AcceptedSocket}
    (hmem : socket ∈ ((s.setWorker w x).workers w').sockets spot) :
    (w' = w ∧ socket ∈ x.sockets spot) ∨ socket ∈ (s.workers w').sockets spot := by
  change socket ∈ (Function.update s.workers w x w').sockets spot at hmem
  by_cases hw : w' = w
  · subst hw
    rw [Function.update_self] at hmem
    exact .inl ⟨rfl, hmem⟩
  · rw [Function.update_of_ne hw] at hmem
    exact .inr hmem

/-! ## Steps -/

private theorem Dealt.refuse (h : Dealt g r s) {socket : AcceptedSocket} {w' : Fin n}
    (hholding : s.acceptor = .holding socket w') {step : ServerStep n}
    (hrefusals : ∀ w, refusals w s step = if w' = w then [socket] else []) :
    Dealt (fun w ↦ g w ++ arrivals w s ({ s with acceptor := .idle }.close [socket]))
      (fun w ↦ r w ++ refusals w s step) ({ s with acceptor := .idle }.close [socket]) := by
  have harrivals : ∀ w, arrivals w s ({ s with acceptor := .idle }.close [socket]) = [] :=
    fun w ↦ arrivals_of_eq rfl
  refine h.hand hholding rfl rfl (fun _ ↦ rfl) (fun w ↦ ?_) fun w spot other hmem ↦ ?_
  · rw [harrivals, hrefusals, List.append_nil, List.append_assoc]
  · exact List.mem_append_left _ (h.workers w spot other hmem)

/-- The socket in the hand of the acceptor is appended to `pending_`. -/
theorem Dealt.push (h : Dealt g r s) (hinv : s.Inv) {socket : AcceptedSocket} {w' : Fin n}
    (hholding : s.acceptor = .holding socket w') (hgo : ¬ (s.workers w').stopRequested = true)
    (hs' : s' = { s with acceptor := .pushed w' }.setWorker w'
      { s.workers w' with pending := (s.workers w').pending ++ [socket] }) :
    Dealt (fun w ↦ g w ++ arrivals w s s') (fun w ↦ r w ++ refusals w s .push) s' := by
  have hpending : ∀ w, (s'.workers w).pending
      = (s.workers w).pending ++ if w' = w then [socket] else [] := by
    intro w
    rw [hs']
    show (Function.update s.workers w' _ w).pending = _
    by_cases hw : w' = w
    · subst hw
      rw [Function.update_self, if_pos rfl]
    · rw [Function.update_of_ne (Ne.symm hw), if_neg hw, List.append_nil]
  -- what the acceptor has in its hand is nowhere else
  have hfresh : ∀ w, socket ∉ (s.workers w).pending := by
    intro w hmem
    obtain ⟨place, hplaced, -⟩ := hinv.placed
    have hhand : socket ∈ s.sockets .hand := by
      show socket ∈ s.acceptor.hand
      rw [hholding]
      exact List.mem_singleton_self socket
    exact (hplaced.unique (hplaced.mem_iff.mp hhand)).2 (.worker w .pending) (by rintro ⟨⟩) hmem
  have harrivals : ∀ w, arrivals w s s' = if w' = w then [socket] else [] := by
    intro w
    have hold : (s.workers w).pending.filter (fun x ↦ x ∉ (s.workers w).pending) = [] := by
      rw [List.filter_eq_nil_iff]
      intro x hx
      simp [hx]
    rw [arrivals, hpending, List.filter_append, hold, List.nil_append]
    split
    · rw [List.filter_cons, if_pos (decide_eq_true (hfresh w)), List.filter_nil]
    · rfl
  have hrefusals : ∀ w, refusals w s .push = [] := by
    intro w
    simp only [refusals, hholding]
    refine if_neg ?_
    rintro ⟨rfl, hstop⟩
    exact hgo hstop
  refine h.hand hholding (by rw [hs']; rfl) (by rw [hs']; rfl) (fun w ↦ by rw [hs']; rfl)
    (fun w ↦ ?_) fun w spot other hmem ↦ ?_
  · rw [harrivals, hrefusals, List.append_nil, List.append_assoc, List.append_assoc]
    exact List.perm_append_comm.append_left _
  · have hbefore : other ∈ (s.workers w).sockets spot → other ∈ g w ++ arrivals w s s' :=
      fun hmem ↦ List.mem_append_left _ (h.workers w spot other hmem)
    cases spot with
    | pending =>
      change other ∈ (s'.workers w).pending at hmem
      rw [hpending, ← harrivals w] at hmem
      rcases List.mem_append.mp hmem with hpending | hnew
      · exact hbefore hpending
      · exact List.mem_append_right _ hnew
    | installing | connections =>
      rw [hs'] at hmem
      rcases mem_setWorker hmem with ⟨rfl, hsame⟩ | hsame <;> exact hbefore hsame

/-- Nothing is handed over and nothing arrives. -/
private theorem Dealt.quiet (h : Dealt g r s') {step : ServerStep n}
    (harrivals : ∀ w, arrivals w s s' = []) (hrefusals : ∀ w, refusals w s step = []) :
    Dealt (fun w ↦ g w ++ arrivals w s s') (fun w ↦ r w ++ refusals w s step) s' := by
  simpa only [harrivals, hrefusals, List.append_nil] using h

private theorem Dealt.wake (h : Dealt g r s) {w' : Fin n} (hpushed : s.acceptor = .pushed w')
    (hs' : s' = { s with acceptor := .idle }.setWorker w'
      { s.workers w' with counter := wakeEvent (s.workers w').counter }) :
    Dealt (fun w ↦ g w ++ arrivals w s s') (fun w ↦ r w ++ refusals w s .wake) s' := by
  subst hs'
  have hworkers : ∀ w spot, (Function.update s.workers w'
      { s.workers w' with counter := wakeEvent (s.workers w').counter } w).sockets spot
      = (s.workers w).sockets spot := by
    intro w spot
    by_cases hw : w = w'
    · subst hw
      rw [Function.update_self]
      cases spot <;> rfl
    · rw [Function.update_of_ne hw]
  have hdealt : Dealt g r ({ s with acceptor := .idle }.setWorker w'
      { s.workers w' with counter := wakeEvent (s.workers w').counter }) := by
    refine h.congr rfl rfl (fun w ↦ ?_) fun w spot socket hmem ↦ ⟨spot, hworkers w spot ▸ hmem⟩
    rw [held, held, hpushed]
    rfl
  exact hdealt.quiet (fun w ↦ arrivals_of_eq (hworkers w .pending)) fun w ↦ rfl

/-- A worker moves sockets on, and takes none that it was not given. -/
private theorem Dealt.worker (h : Dealt g r s) {w' : Fin n} {step : WorkerStep}
    {closed : List AcceptedSocket} {x : Worker}
    (hworker : (s.workers w').step step = some (closed, x)) :
    Dealt (fun w ↦ g w ++ arrivals w s ((s.setWorker w' x).close closed))
      (fun w ↦ r w ++ refusals w s (.worker w' step)) ((s.setWorker w' x).close closed) := by
  obtain ⟨p, q, moved, htransfer⟩ := (Worker.takes_step hworker).transfer
  have hdealt : Dealt g r ((s.setWorker w' x).close closed) := by
    refine h.congr rfl rfl (fun _ ↦ rfl) fun w spot socket hmem ↦ ?_
    rcases mem_setWorker hmem with ⟨rfl, htaken⟩ | hbefore
    · exact htransfer.mem htaken
    · exact ⟨spot, hbefore⟩
  refine hdealt.quiet (fun w ↦ ?_) fun w ↦ rfl
  by_cases hw : w = w'
  · subst hw
    have hself : (((s.setWorker w x).close closed).workers w) = x := Function.update_self ..
    rcases Worker.pending_step hworker with hsame | hnil
    · exact arrivals_of_eq (by rw [hself, hsame])
    · exact arrivals_of_nil (by rw [hself, hnil])
  · refine arrivals_of_eq ?_
    show (Function.update s.workers w' x w).pending = _
    rw [Function.update_of_ne hw]

theorem Dealt.step (h : Dealt g r s) (hinv : s.Inv) {step : ServerStep n}
    (hstep : s.step step = some s') :
    Dealt (fun w ↦ g w ++ arrivals w s s') (fun w ↦ r w ++ refusals w s step) s' := by
  cases step with
  | accept fd =>
    dsimp only [Server.step] at hstep
    split at hstep
    · rename_i hidle
      split at hstep
      · cases hstep
        exact (h.accept hidle fd).quiet (fun w ↦ arrivals_of_eq rfl) fun w ↦ rfl
      · cases hstep
    · cases hstep
  | push =>
    dsimp only [Server.step] at hstep
    split at hstep
    · rename_i socket w' hholding
      split at hstep
      · rename_i hstop
        cases hstep
        refine h.refuse hholding fun w ↦ ?_
        simp only [refusals, hholding]
        refine if_congr (and_iff_left_of_imp ?_) rfl rfl
        rintro rfl
        exact hstop
      · rename_i hgo
        cases hstep
        exact h.push hinv hholding hgo rfl
    · cases hstep
  | pushThrows =>
    dsimp only [Server.step] at hstep
    split at hstep
    · rename_i socket w' hholding
      cases hstep
      refine h.refuse hholding fun w ↦ ?_
      simp only [refusals, hholding]
    · cases hstep
  | wake =>
    dsimp only [Server.step] at hstep
    split at hstep
    · rename_i w' hpushed
      cases hstep
      exact h.wake hpushed rfl
    · cases hstep
  | worker w' step =>
    dsimp only [Server.step] at hstep
    split at hstep
    · rename_i closed x hworker
      cases hstep
      exact h.worker hworker
    · cases hstep

theorem Dealt.run : ∀ (steps : List (ServerStep n)) {s s' : Server n}
    {g r : Fin n → List AcceptedSocket}, Dealt g r s → s.Inv → s.run steps = some s' →
    Dealt (fun w ↦ g w ++ given w s steps) (fun w ↦ r w ++ refused w s steps) s' := by
  intro steps
  induction steps with
  | nil =>
    intro s s' g r h _ hrun
    cases hrun
    simpa only [given, refused, List.append_nil] using h
  | cons step steps ih =>
    intro s s' g r h hinv hrun
    rw [Server.run, List.foldlM_cons] at hrun
    obtain ⟨s₁, hstep, hrest⟩ := Option.bind_eq_some_iff.mp hrun
    have hrun := ih (h.step hinv hstep) (hinv.step hstep) hrest
    simpa only [given, refused, hstep, List.append_assoc] using hrun

/-! ## Runs -/

/-- How many of the first ids have a turn. -/
private theorem Dealt.length_turns (h : Dealt g r s) (w : Fin n) :
    (s.accepted.filter fun socket ↦ socket.id % n = w).length
      = s.accepted.length / n + if w < s.accepted.length % n then 1 else 0 := by
  have hcount : (s.accepted.filter fun socket ↦ socket.id % n = w).length
      = s.accepted.length.count (· ≡ w [MOD n]) := by
    have hmap : (s.accepted.filter fun socket ↦ socket.id % n = w).length
        = (s.accepted.map AcceptedSocket.id).countP fun id ↦ id % n = w := by
      rw [List.countP_map, ← List.countP_eq_length_filter]
      rfl
    rw [hmap, h.ids, List.countP_reverse, Nat.count]
    refine List.countP_congr fun id _ ↦ ?_
    rw [decide_eq_true_iff, decide_eq_true_iff, Nat.ModEq, Nat.mod_eq_of_lt w.isLt]
  rw [hcount, Nat.count_modEq_card _ s.workerCount_pos, Nat.mod_eq_of_lt w.isLt]

/-- What is promised of the load after a run from `s₀` to `s`. -/
structure Balanced (s₀ : Server n) (steps : List (ServerStep n)) (s : Server n) : Prop where
  /-- Every `n`-th socket was handed to a worker. It was given the socket, or refused it, unless it
  is still in the hand of the acceptor. -/
  turns : ∀ w, (given w s₀ steps ++ refused w s₀ steps ++ s.held w).Perm
    (s.accepted.filter fun socket ↦ socket.id % n = w)
  share : ∀ w, (given w s₀ steps).length + (refused w s₀ steps).length + (s.held w).length
    = s.accepted.length / n + if w < s.accepted.length % n then 1 else 0
  /-- A worker has no sockets but those it was given. -/
  owns : ∀ w spot, ∀ socket ∈ (s.workers w).sockets spot, socket ∈ given w s₀ steps
  load : ∀ w, ((s.workers w).sockets .pending).length + ((s.workers w).sockets .installing).length
    + ((s.workers w).sockets .connections).length ≤ (given w s₀ steps).length

/-- **Every run deals the sockets out evenly**, whatever the workers do with them. -/
theorem run_shares (hn : 0 < n) (steps : List (ServerStep n)) {s : Server n}
    (hrun : (new hn).run steps = some s) (hfew : s.accepted.length ≤ 2 ^ 64) :
    Balanced (new hn) steps s := by
  have h := Dealt.run steps (dealt_new hn) (inv_new hn) hrun
  simp only [List.nil_append] at h
  have hinv := Inv.run steps (inv_new hn) hrun
  have hturns : ∀ w : Fin n, (given w (new hn) steps ++ refused w (new hn) steps ++ s.held w).Perm
      (s.accepted.filter fun socket ↦ socket.id % n = w) := by
    intro w
    refine (h.dealt w).trans (.of_eq (List.filter_congr fun socket hmem ↦ ?_))
    rw [turnOf, Nat.mod_eq_of_lt ((hinv.ids socket hmem).trans_le hfew)]
  refine ⟨hturns, fun w ↦ ?_, h.workers, fun w ↦ ?_⟩
  · rw [← h.length_turns w, ← (hturns w).length_eq, List.length_append, List.length_append]
  · obtain ⟨place, hplaced, -⟩ := hinv.placed
    have hapart : ∀ p q : Spot, p ≠ q → ∀ a ∈ (s.workers w).sockets p,
        ∀ b ∈ (s.workers w).sockets q, a ≠ b := by
      rintro p q hpq a ha b hb rfl
      refine (hplaced.unique (hplaced.mem_iff.mp (show a ∈ s.sockets (.worker w p) from ha))).2
        (.worker w q) ?_ hb
      rintro heq
      exact hpq (Place.worker.inj heq).2.symm
    have hnodup : ((s.workers w).sockets .pending ++ ((s.workers w).sockets .installing
        ++ (s.workers w).sockets .connections)).Nodup := by
      rw [List.nodup_append, List.nodup_append]
      refine ⟨hplaced.nodup (.worker w .pending), ⟨hplaced.nodup (.worker w .installing),
        hplaced.nodup (.worker w .connections), hapart _ _ (by rintro ⟨⟩)⟩, fun a ha b hb ↦ ?_⟩
      rcases List.mem_append.mp hb with hb | hb
      · exact hapart _ _ (by rintro ⟨⟩) a ha b hb
      · exact hapart _ _ (by rintro ⟨⟩) a ha b hb
    have hsub : ∀ socket ∈ (s.workers w).sockets .pending ++ ((s.workers w).sockets .installing
        ++ (s.workers w).sockets .connections), socket ∈ given w (new hn) steps := by
      intro socket hmem
      rcases List.mem_append.mp hmem with hmem | hmem
      · exact h.workers w _ socket hmem
      · rcases List.mem_append.mp hmem with hmem | hmem
        · exact h.workers w _ socket hmem
        · exact h.workers w _ socket hmem
    have hle := (hnodup.subperm hsub).length_le
    rw [List.length_append, List.length_append] at hle
    omega

/-- A worker is asked to stop before it gets its second socket. -/
private def fourSockets (w : Fin 2) : List (ServerStep 2) :=
  [.accept 7, .push, .wake, .accept 8, .push, .wake, .accept 9, .push, .wake,
    .worker w .requestStop, .accept 10, .push]

theorem run_shares_four_sockets :
    ∃ s, (new Nat.two_pos).run (fourSockets 1) = some s
      ∧ given 0 (new Nat.two_pos) (fourSockets 1) = [⟨0, 7⟩, ⟨2, 9⟩]
      ∧ given 1 (new Nat.two_pos) (fourSockets 1) = [⟨1, 8⟩]
      ∧ refused 1 (new Nat.two_pos) (fourSockets 1) = [⟨3, 10⟩]
      ∧ Balanced (new Nat.two_pos) (fourSockets 1) s := by
  have heval : ((new Nat.two_pos).run (fourSockets 1)).map (fun s ↦ s.accepted.length)
      = some 4 := by
    decide +kernel
  obtain ⟨s, hrun, haccepted⟩ := Option.map_eq_some_iff.mp heval
  refine ⟨s, hrun, by decide +kernel, by decide +kernel, by decide +kernel,
    run_shares Nat.two_pos _ hrun ?_⟩
  rw [haccepted]
  decide

end Server

end HighCache
