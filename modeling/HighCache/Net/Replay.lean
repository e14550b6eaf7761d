import HighCache.Lib.SharedHistory
import HighCache.Net.Exchange

/-!
# A connection that is looked at alone

A connection sees the engine only in the responses to the requests it executes. So a handler that
runs on another engine, which gives the same responses, does the same (`Sees`). And to the requests
it is the same whether the calls of others were made long ago or just before: a sequence of requests
that has missed the latest calls gets the same responses if these are told to it before its first
call (`SharedEngine.Replays`). The two together let a run of many connections be taken apart into
runs of single ones.
-/

namespace HighCache

open SharedHistory Protocol Transition

/-! ## Turns at the engine

Each request that is executed is one call of the engine, in a turn of its own: some calls of others
come first. `ahead` tells a connection what will happen around its next turns. -/

/-- A turn of a connection. -/
abbrev EngineTurn (n : ℕ) := SharedHistory.Turn (EngineCall n) Env

/-- Some calls lead from one engine to another. -/
def CacheEngine.Leads {n : ℕ} (hash : Bytes → UInt64) (e : CacheEngine n)
    (calls : List (EngineCall n)) (e' : CacheEngine n) : Prop :=
  ∃ answers, run (CacheEngine.call hash) e calls = .ok (answers, e')

namespace CacheEngine.Leads

variable {n : ℕ} {hash : Bytes → UInt64} {e e' e'' : CacheEngine n} {xs ys : List (EngineCall n)}

theorem refl (e : CacheEngine n) : e.Leads hash [] e := ⟨[], rfl⟩

theorem trans (h : e.Leads hash xs e') (h' : e'.Leads hash ys e'') :
    e.Leads hash (xs ++ ys) e'' := by
  obtain ⟨answers, hrun⟩ := h
  obtain ⟨answers', hrun'⟩ := h'
  refine ⟨answers ++ answers', ?_⟩
  rw [run_append hrun, hrun']
  rfl

theorem eq_of_nil (h : e.Leads hash [] e') : e' = e := by
  obtain ⟨answers, hrun⟩ := h
  rw [run_nil, Except.ok.injEq, Prod.mk.injEq] at hrun
  exact hrun.2.symm

end CacheEngine.Leads

namespace SharedEngine

variable {n : ℕ} {hash : Bytes → UInt64}

/-- What happens around some turns, and then what happens later. -/
def ahead : List (EngineTurn n) → (ℕ → Surroundings n) → ℕ → Surroundings n
  | [], later, k => later k
  | t :: _, _, 0 => ⟨t.others, t.env⟩
  | _ :: ts, later, k + 1 => ahead ts later k

theorem ahead_append (ts us : List (EngineTurn n)) (later : ℕ → Surroundings n) :
    ahead (ts ++ us) later = ahead ts (ahead us later) := by
  funext k
  induction ts generalizing k with
  | nil => rfl
  | cons t ts ih =>
    cases k with
    | zero => rfl
    | succ k => exact ih k

/-- The call of the engine that `Connection::execute` makes for a request. -/
def callOf (request : Request) (env : Env) : Option (EngineCall n) :=
  if request.opcode = .get then some (.get env request.key [])
  else if request.opcode = .set then
    some (.set env request.key request.value request.ttlMs.toInt64)
  else if request.opcode = .erase then some (.erase env request.key)
  else none

/-- The calls in some turns are exactly those for some requests. -/
def Executes (requests : List Request) (ts : List (EngineTurn n)) : Prop :=
  List.Forall₂ (fun request t ↦ callOf request t.env = some t.call) requests ts

theorem Executes.append {requests requests' : List Request} {ts us : List (EngineTurn n)}
    (h : Executes requests ts) (h' : Executes requests' us) :
    Executes (requests ++ requests') (ts ++ us) :=
  List.rel_append h h'

/-- When others have called the engine does not matter. -/
theorem Executes.delay {requests : List Request} {ts : List (EngineTurn n)}
    (h : Executes requests ts) (lag : List (EngineCall n)) : Executes requests (delay lag ts) := by
  cases h with
  | nil => exact .nil
  | cons hcall hrest => exact .cons hcall hrest

private theorem exists_call {request : Request} (hvalid : isValidOpcode request.opcode = true) :
    ∃ call : Env → EngineCall n, (∀ env, callOf request env = some (call env))
      ∧ ∀ s : SharedEngine n, s.respond hash request
        = s.call hash call >>= fun r ↦ .ok (reply request.requestId r.1, r.2) := by
  simp only [callOf, respond]
  by_cases hget : request.opcode = .get
  · exact ⟨_, fun env ↦ if_pos hget, fun s ↦ if_pos hget⟩
  by_cases hset : request.opcode = .set
  · exact ⟨_, fun env ↦ (if_neg hget).trans (if_pos hset),
      fun s ↦ (if_neg hget).trans (if_pos hset)⟩
  by_cases herase : request.opcode = .erase
  · exact ⟨_, fun env ↦ (if_neg hget).trans ((if_neg hset).trans (if_pos herase)),
      fun s ↦ (if_neg hget).trans ((if_neg hset).trans (if_pos herase))⟩
  · simp [isValidOpcode, hget, hset, herase] at hvalid

/-! ## Requests that are executed later

Between two requests of a connection others call the engine. It makes no difference to the responses
whether these calls come right after the first request or right before the second. -/

/-- Executing some requests leads from `s` to `s'` in some turns. An engine that has missed the
latest calls of others gets there too, with the same responses, when these are told to it before its
first turn. -/
structure Replays (hash : Bytes → UInt64) (s : SharedEngine n) (requests : List Request)
    (responses : List Response) (s' : SharedEngine n) (ts : List (EngineTurn n)) : Prop where
  upcoming : s.upcoming = ahead ts s'.upcoming
  leads : s.engine.Leads hash (calls ts) s'.engine
  executes : Executes requests ts
  again : ∀ e lag, e.Leads hash lag s.engine → ∀ later,
    run (respond hash) ⟨e, ahead (delay lag ts) later⟩ requests
      = .ok (responses, ⟨if ts.isEmpty then e else s'.engine, later⟩)

private theorem replays_nil (s : SharedEngine n) : Replays hash s [] [] s [] :=
  ⟨rfl, .refl _, .nil, fun _ _ _ _ ↦ rfl⟩

private theorem replays_respond {s s' : SharedEngine n} {request : Request} {response : Response}
    (hvalid : isValidOpcode request.opcode = true)
    (h : s.respond hash request = .ok (response, s')) :
    ∃ ts, Replays hash s [request] [response] s' ts := by
  obtain ⟨call, hcallOf, hrespond⟩ := @exists_call n hash _ hvalid
  rw [hrespond] at h
  obtain ⟨⟨answer, s₁⟩, hcalled, h⟩ := Except.bind_eq_ok_iff.mp h
  cases h
  obtain ⟨⟨answers, e⟩, hothers, hcalled⟩ := Except.bind_eq_ok_iff.mp hcalled
  obtain ⟨⟨answer', e'⟩, hcall, hcalled⟩ := Except.bind_eq_ok_iff.mp hcalled
  cases hcalled
  refine ⟨[⟨(s.upcoming 0).others, (s.upcoming 0).env, call (s.upcoming 0).env⟩], ?_, ?_,
    .cons (hcallOf _) .nil, ?_⟩
  · funext k
    cases k <;> rfl
  · refine ⟨answers ++ [answer], ?_⟩
    show run _ _ ((s.upcoming 0).others ++ [_] ++ []) = _
    rw [List.append_nil, run_append hothers, run_cons hcall]
    rfl
  · rintro e₀ lag ⟨missed, hlag⟩ later
    have hall : run (CacheEngine.call hash) e₀ (lag ++ (s.upcoming 0).others)
        = .ok (missed ++ answers, e) := by
      rw [run_append hlag, hothers]
      rfl
    refine run_singleton.mpr ?_
    rw [hrespond, SharedEngine.call]
    show ((run (CacheEngine.call hash) e₀ (lag ++ (s.upcoming 0).others) >>= _) >>= _) = _
    rw [hall, Except.ok_bind_eq]
    show ((CacheEngine.call hash e (call (s.upcoming 0).env) >>= _) >>= _) = _
    rw [hcall]
    rfl

theorem Replays.append {s s' s'' : SharedEngine n} {requests requests' : List Request}
    {responses responses' : List Response} {ts us : List (EngineTurn n)}
    (h : Replays hash s requests responses s' ts)
    (h' : Replays hash s' requests' responses' s'' us) :
    Replays hash s (requests ++ requests') (responses ++ responses') s'' (ts ++ us) where
  upcoming := by rw [h.upcoming, h'.upcoming, ahead_append]
  leads := by
    rw [calls_append]
    exact h.leads.trans h'.leads
  executes := h.executes.append h'.executes
  again := by
    intro e lag hlag later
    cases ts with
    | nil =>
      have hfirst : run (respond hash) ⟨e, ahead (delay lag us) later⟩ requests
          = .ok (responses, ⟨e, ahead (delay lag us) later⟩) := h.again e lag hlag _
      have hsame := h.leads.eq_of_nil
      rw [List.nil_append, run_append hfirst, h'.again e lag (hsame ▸ hlag) later]
      rfl
    | cons t ts =>
      have hfirst : run (respond hash) ⟨e, ahead (delay lag (t :: ts)) (ahead us later)⟩ requests
          = .ok (responses, ⟨s'.engine, ahead us later⟩) := h.again e lag hlag _
      have hsecond := h'.again s'.engine [] (.refl _) later
      rw [delay_nil] at hsecond
      rw [delay_append_of_ne (List.cons_ne_nil t ts), ahead_append, run_append hfirst, hsecond]
      cases us with
      | nil => rw [h'.leads.eq_of_nil]; rfl
      | cons u us => rfl

/-- **Requests can be replayed.** -/
theorem replays_of_run (requests : List Request) : ∀ {s s' : SharedEngine n}
    {responses : List Response}, (∀ request ∈ requests, isValidOpcode request.opcode = true) →
    run (respond hash) s requests = .ok (responses, s') →
    ∃ ts, Replays hash s requests responses s' ts := by
  induction requests with
  | nil =>
    intro s s' responses _ h
    cases h
    exact ⟨[], replays_nil s⟩
  | cons request requests ih =>
    intro s s' responses hvalid h
    obtain ⟨response, responses', s₁, hstep, hrest, rfl⟩ := run_cons_ok h
    rw [List.forall_mem_cons] at hvalid
    obtain ⟨ts, hfirst⟩ := replays_respond hvalid.1 hstep
    obtain ⟨us, hothers⟩ := ih hvalid.2 hrest
    exact ⟨ts ++ us, hfirst.append hothers⟩

end SharedEngine

/-! ## What a handler sees of the engine

An operation of a connection is a function of the connection with the engine in it. It sees of the
engine only some responses if on every engine that gives these it returns the same connection, up to
the engine. -/

namespace Connection

variable {n : ℕ} {hash : Bytes → UInt64} {α β : Type} {c c' c'' : Connection n} {a : α} {b : β}
  {executed executed' : List Request} {responses responses' : List Response}

/-- A call leads from `c` to `c'`, and has had some requests executed. On another engine that gives
the same responses it does the same. -/
structure Sees (hash : Bytes → UInt64) (op : Connection n → Except Fault (α × Connection n))
    (c : Connection n) (a : α) (c' : Connection n) (executed : List Request)
    (responses : List Response) : Prop where
  valid : ∀ request ∈ executed, isValidOpcode request.opcode = true
  responds : run (SharedEngine.respond hash) c.engine executed = .ok (responses, c'.engine)
  same : ∀ s s', run (SharedEngine.respond hash) s executed = .ok (responses, s') →
    op { c with engine := s } = .ok (a, { c' with engine := s' })

/-- A call that does not use the engine. -/
theorem sees_of_blind {op : Connection n → Except Fault (α × Connection n)}
    (hengine : c'.engine = c.engine)
    (h : ∀ s, op { c with engine := s } = .ok (a, { c' with engine := s })) :
    Sees hash op c a c' [] [] where
  valid := by rintro request ⟨⟩
  responds := by rw [hengine]; rfl
  same := by
    intro s s' hrun
    cases hrun
    exact h s

theorem Sees.congr {op op' : Connection n → Except Fault (α × Connection n)}
    (h : Sees hash op' c a c' executed responses)
    (heq : ∀ s, op { c with engine := s } = op' { c with engine := s }) :
    Sees hash op c a c' executed responses :=
  { h with same := fun s s' hrun ↦ (heq s).trans (h.same s s' hrun) }

theorem Sees.bind {op : Connection n → Except Fault (α × Connection n)}
    (h : Sees hash op c a c' executed responses)
    (op' : α → Connection n → Except Fault (β × Connection n))
    (h' : Sees hash (op' a) c' b c'' executed' responses') :
    Sees hash (fun c ↦ op c >>= fun r ↦ op' r.1 r.2) c b c'' (executed ++ executed')
      (responses ++ responses') where
  valid := by
    rw [List.forall_mem_append]
    exact ⟨h.valid, h'.valid⟩
  responds := by
    rw [run_append h.responds, h'.responds]
    rfl
  same := by
    intro s s'' hrun
    obtain ⟨s', hfirst, hsecond⟩ := run_append_ok hrun (length_of_run _ h.responds)
    show op { c with engine := s } >>= _ = _
    rw [h.same s s' hfirst, Except.ok_bind_eq]
    exact h'.same s' s'' hsecond

theorem sees_respond {request : Request} {response : Response} {s : SharedEngine n}
    (hvalid : isValidOpcode request.opcode = true)
    (h : c.engine.respond hash request = .ok (response, s)) :
    Sees hash (fun c ↦ c.engine.respond hash request >>= fun r ↦
      .ok (r.1, { c with engine := r.2 })) c response { c with engine := s } [request]
      [response] where
  valid := List.forall_mem_singleton.mpr hvalid
  responds := run_singleton.mpr h
  same := by
    intro s₁ s₂ hrun
    show (s₁.respond hash request >>= _) = _
    rw [run_singleton.mp hrun]
    rfl

end Connection

end HighCache
