import HighCache.Net.Entries

/-!
# Many connections on one engine

The connections of a worker, all on one engine that other threads use too. The calls of the engine
have one order, and in that order every connection behaves as if it were alone with an engine that
others use (`EventLoop.run_linear`). So what is known of a connection alone holds of each of them;
in particular every client reads the responses to its own requests, in their order, and nothing else
(`EventLoop.run_served`). And a worker attends to all of them: what epoll watches for a connection
is what the connection waits for, and none is dropped with output pending but for a reason
(`EventLoop.run_attentive`).

## The history

A step of a worker appends to the history the calls that the handlers of one connection have made,
each after those that others made before it. To every other connection these are calls of others,
and it has not taken them into account yet: it will see them at its next turn (`Share.other`). To
the connection itself they are its own turns, for the requests it has executed (`Share.mine`).
-/

namespace HighCache

open SharedHistory KeyedList Protocol Transition

namespace EventLoop

variable {n : ℕ} {hash : Bytes → UInt64} {x x' : EventLoop n}

/-! ## One history

A connection and the history it is in: where it was new, what it has executed since, and which calls
of others it has not seen yet. All connections of an event loop follow the same history, which is
what makes the engine one engine for them. -/

open SharedEngine

/-- The history of the calls of the engine that connections make. -/
abbrev EngineHistory (n : ℕ) := List (Occurrence ℕ (EngineCall n) Env)

/-- The calls of one connection. -/
def own (id : ℕ) : ℕ → Bool := fun i ↦ i == id

/-- What becomes of a connection in its turns of a history. The history is cut where the connection
was new. -/
structure Share (hash : Bytes → UInt64) (start : CacheEngine n) (outputLimit : ℕ)
    (e : CacheEngine n) (entry : Entry n) (before after : EngineHistory n) (e₁ e₂ : CacheEngine n)
    (events : List Connection.Event) (threw : Option (Throw × List RecvResult)) (kept : List Bool)
    (executed : List Request) (responses : List Response) : Prop where
  fresh : turns (own entry.id) [] before = []
  start : start.Leads hash (before.map Occurrence.call) e₁
  /-- It is what a connection alone comes to that takes these turns, whatever happens `later`. -/
  live : ∀ later, Connection.live hash events threw
      (.new ⟨e₁, ahead (turns (own entry.id) [] after) later⟩ outputLimit)
    = .ok ((kept, threw.isSome), { entry.connection with engine := ⟨e₂, later⟩ })
  /-- The turns are exactly the calls for the requests it has had executed, … -/
  executes : Executes executed (turns (own entry.id) [] after)
  /-- … which gave these responses. -/
  responds : ∀ later, run (SharedEngine.respond hash)
      ⟨e₁, ahead (turns (own entry.id) [] after) later⟩ executed
    = .ok (responses, ⟨e₂, later⟩)
  ledger : (contents entry.connection.socket.received).error = none →
    entry.connection.Ledger executed responses
  booked : threw = none → entry.connection.Booked executed responses
  /-- Since the last of its turns others have called the engine. -/
  since : e₂.Leads hash (since (own entry.id) [] after) e

/-- **The connection behaves as if it were alone.** It was new when the history was `before`, and
is what a connection alone comes to that takes the turns of this one in the rest of the history. A
handler has thrown only if `exception`. -/
def Alone (hash : Bytes → UInt64) (start : CacheEngine n) (outputLimit : ℕ)
    (history : EngineHistory n) (e : CacheEngine n) (entry : Entry n) (exception : Prop) : Prop :=
  ∃ before after e₁ e₂ events threw kept executed responses, history = before ++ after
    ∧ (threw.isSome = true → exception)
    ∧ Share hash start outputLimit e entry before after e₁ e₂ events threw kept executed responses

/-- The history that has led to the engine there is now. The calls of others in it are those that
the surroundings have said. -/
structure Follows (hash : Bytes → UInt64) (start : SharedEngine n) (history : EngineHistory n)
    (s : SharedEngine n) : Prop where
  upcoming : start.upcoming = ahead (turns (fun _ ↦ true) [] history) s.upcoming
  settled : since (fun _ ↦ true) [] history = []
  leads : start.engine.Leads hash (history.map Occurrence.call) s.engine

/-- All connections follow one history of the engine. -/
structure Linear (hash : Bytes → UInt64) (start : SharedEngine n) (limit : ℕ)
    (history : EngineHistory n) (x : EventLoop n) : Prop extends
    Follows hash start history x.engine where
  outputLimit : x.outputLimit = limit
  fresh : ∀ id, x.installed ≤ id → turns (own id) [] history = []
  alone : ∀ entry ∈ x.entries, Alone hash start.engine limit history x.engine.engine entry
    ((entry, .exception) ∈ x.departed)

theorem linear_new (start : SharedEngine n) (outputLimit : ℕ) :
    Linear hash start outputLimit [] (new start outputLimit) where
  outputLimit := rfl
  upcoming := rfl
  settled := rfl
  leads := .refl _
  fresh := fun _ _ ↦ rfl
  alone := fun _ hmem ↦ absurd hmem List.not_mem_nil

section Share

variable {start : CacheEngine n} {outputLimit : ℕ} {history : EngineHistory n}
  {e e' : CacheEngine n} {s : SharedEngine n} {entry : Entry n} {before after : EngineHistory n}
  {e₁ e₂ : CacheEngine n} {events : List Connection.Event}
  {threw : Option (Throw × List RecvResult)} {kept : List Bool} {executed : List Request}
  {responses : List Response}

/-! ### Turns of a connection and of others -/

private theorem share_new (hconnection : entry.connection = .new s outputLimit)
    (hleads : start.Leads hash (history.map Occurrence.call) e)
    (hfresh : turns (own entry.id) [] history = []) :
    Share hash start outputLimit e entry history [] e e [] none [] [] [] where
  fresh := hfresh
  start := hleads
  live := fun later ↦ by rw [hconnection]; rfl
  executes := .nil
  responds := fun _ ↦ rfl
  ledger := fun herror ↦ ((hconnection ▸ Connection.booked_new s outputLimit :
    entry.connection.Booked [] []) herror).1
  booked := fun _ ↦ hconnection ▸ Connection.booked_new s outputLimit
  since := .refl _

/-- Another connection has taken some turns. -/
theorem Share.other (h : Share hash start outputLimit e entry before after e₁ e₂ events threw kept
      executed responses) {id : ℕ} (hne : id ≠ entry.id) {ts : List (EngineTurn n)}
    (hleads : e.Leads hash (calls ts) e') :
    Share hash start outputLimit e' entry before (after ++ items id ts) e₁ e₂ events threw kept
      executed responses := by
  have hnot : own entry.id id = false := beq_eq_false_iff_ne.mpr hne
  have hsame : turns (own entry.id) [] (after ++ items id ts) = turns (own entry.id) [] after := by
    rw [turns_append, (turns_items_of_not hnot ts _).1, List.append_nil]
  exact {
    fresh := h.fresh
    start := h.start
    live := by rw [hsame]; exact h.live
    executes := by rw [hsame]; exact h.executes
    responds := by rw [hsame]; exact h.responds
    ledger := h.ledger
    booked := h.booked
    since := by
      rw [since_append, (turns_items_of_not hnot ts _).2]
      exact h.since.trans hleads }

/-- The connection has taken some turns. -/
theorem Share.mine (h : Share hash start outputLimit s.engine entry before after e₁ e₂ events none
      kept executed responses) {events' : List Connection.Event} {kept' : List Bool}
    {c : Connection n} {more : List Request} {answers : List Response} {ts : List (EngineTurn n)}
    (hsees : Connection.Sees hash (Connection.live hash events' threw)
      { entry.connection with engine := s } (kept', threw.isSome) c more answers)
    (hreplays : s.Replays hash more answers c.engine ts)
    (hledger : (contents c.socket.received).error = none →
      c.Ledger (executed ++ more) (responses ++ answers))
    (hbooked : threw = none → c.Booked (executed ++ more) (responses ++ answers))
    (interest : Option UInt32) :
    Share hash start outputLimit c.engine.engine
      { entry with connection := c, interest := interest } before (after ++ items entry.id ts) e₁
      (if ts.isEmpty then e₂ else c.engine.engine) (events ++ events') threw (kept ++ kept')
      (executed ++ more) (responses ++ answers) := by
  have hown : own entry.id entry.id = true := beq_self_eq_true _
  have hturns : turns (own entry.id) [] (after ++ items entry.id ts)
      = turns (own entry.id) [] after
        ++ delay (SharedHistory.since (own entry.id) [] after) ts := by
    rw [turns_append, turns_items hown]
  exact {
    fresh := h.fresh
    start := h.start
    live := by
      intro later
      show Connection.live hash _ _ (.new ⟨e₁, ahead (turns (own entry.id) []
        (after ++ items entry.id ts)) later⟩ _) = _
      rw [hturns, ahead_append, Connection.live_append (h.live _),
        hsees.same _ _ (hreplays.again e₂ _ h.since later)]
      rfl
    executes := by
      show Executes _ (turns (own entry.id) [] (after ++ items entry.id ts))
      rw [hturns]
      exact h.executes.append (hreplays.executes.delay _)
    responds := by
      intro later
      show run _ (⟨e₁, ahead (turns (own entry.id) [] (after ++ items entry.id ts)) later⟩ :
        SharedEngine n) _ = _
      rw [hturns, ahead_append, run_append (h.responds _), hreplays.again e₂ _ h.since later]
      rfl
    ledger := hledger
    booked := hbooked
    since := by
      show CacheEngine.Leads hash _
        (SharedHistory.since (own entry.id) [] (after ++ items entry.id ts)) _
      rw [since_append]
      -- without a turn it has seen nothing new; after one it has seen everything
      cases ts with
      | nil =>
        rw [show c.engine.engine = s.engine from hreplays.leads.eq_of_nil]
        exact h.since
      | cons t ts =>
        rw [since_items hown (List.cons_ne_nil t ts)]
        exact .refl _ }

private theorem alone_new (hconnection : entry.connection = .new s outputLimit)
    (hleads : start.Leads hash (history.map Occurrence.call) e)
    (hfresh : turns (own entry.id) [] history = []) (exception : Prop) :
    Alone hash start outputLimit history e entry exception :=
  ⟨history, [], e, e, [], none, [], [], [], (List.append_nil _).symm, by rintro ⟨⟩,
    share_new hconnection hleads hfresh⟩

theorem Alone.other {exception : Prop}
    (h : Alone hash start outputLimit history e entry exception) {id : ℕ} (hne : id ≠ entry.id)
    {ts : List (EngineTurn n)} (hleads : e.Leads hash (calls ts) e') :
    Alone hash start outputLimit (history ++ items id ts) e' entry exception := by
  obtain ⟨before, after, e₁, e₂, events, threw, kept, executed, responses, rfl, hthrew, h⟩ := h
  exact ⟨before, after ++ items id ts, e₁, e₂, events, threw, kept, executed, responses,
    List.append_assoc .., hthrew, h.other hne hleads⟩

theorem Alone.mono {exception exception' : Prop}
    (h : Alone hash start outputLimit history e entry exception)
    (hmono : exception → exception') :
    Alone hash start outputLimit history e entry exception' := by
  obtain ⟨before, after, e₁, e₂, events, threw, kept, executed, responses, hhistory, hthrew, h⟩ := h
  exact ⟨before, after, e₁, e₂, events, threw, kept, executed, responses, hhistory,
    hmono ∘ hthrew, h⟩

end Share

private theorem Tidy.not_departed (h : x.Tidy) {entry : Entry n} (hentry : entry ∈ x.connections)
    (departure : Departure) : (entry, departure) ∉ x.departed := by
  intro hmem
  have hids := h.ids
  rw [entries, List.map_append] at hids
  exact (List.disjoint_of_nodup_append hids) (List.mem_map_of_mem hentry)
    (List.mem_map_of_mem (List.mem_map_of_mem hmem))

/-! ### The steps of a worker

A step is a turn of one connection, or of none. The history is longer afterwards by what that
connection has executed, and by what others did in between. -/

/-- The entries after some turns of one of them. -/
theorem Linear.turn {start : SharedEngine n} {outputLimit : ℕ} {history : EngineHistory n}
    (h : Linear hash start outputLimit history x) (htidy : x.Tidy) {entry : Entry n}
    (hentry : entry ∈ x.connections) {rest : List (Entry n)}
    (hperm : x.entries.Perm (entry :: rest)) {events : List Connection.Event}
    {threw : Option (Throw × List RecvResult)} {kept : List Bool} {c : Connection n}
    (hacts : Connection.Acts hash { entry.connection with engine := x.engine } events threw kept c)
    (interest : Option UInt32)
    (hperm' : x'.entries.Perm ({ entry with connection := c, interest := interest } :: rest))
    (hframe : x'.outputLimit = x.outputLimit ∧ x'.installed = x.installed ∧ x'.engine = c.engine)
    (hdeparted : ∀ d ∈ x.departed, d ∈ x'.departed) (hthrew : threw.isSome = true →
      ({ entry with connection := c, interest := interest }, .exception) ∈ x'.departed) :
    ∃ more, Linear hash start outputLimit (history ++ more) x' := by
  obtain ⟨hlimit, hinstalled, hengine⟩ := hframe
  have hmem : entry ∈ x.entries := List.mem_append_left _ hentry
  obtain ⟨before, after, e₁, e₂, events₁, threw₁, kept₁, executed, responses, hhistory, hnone,
    hshare⟩ := h.alone entry hmem
  -- a connection whose handler has thrown is not served any more
  obtain rfl : threw₁ = none := by
    cases threw₁ with
    | none => rfl
    | some threw => exact absurd (hnone rfl) (htidy.not_departed hentry _)
  obtain ⟨more, answers, hsees, hledger, hbooked⟩ := hacts executed responses fun herror ↦ by
    obtain ⟨hl, hc⟩ := hshare.booked rfl herror
    exact ⟨⟨hl.requests, hl.sent⟩, fun hopen ↦
      have hcurrent := hc hopen
      ⟨hcurrent.requests, hcurrent.input, hcurrent.closeAfterWrite, hcurrent.output⟩⟩
  -- what the surroundings did before each of its calls
  obtain ⟨ts, hreplays⟩ := SharedEngine.replays_of_run more hsees.valid hsees.responds
  refine ⟨items entry.id ts, ⟨?_, ?_, ?_⟩, hlimit.trans h.outputLimit, fun id hid ↦ ?_,
    fun other hother ↦ ?_⟩
  · rw [turns_append, h.settled, turns_items rfl, delay_nil, ahead_append, hengine,
      ← hreplays.upcoming]
    exact h.upcoming
  · rw [since_append, h.settled]
    cases ts with
    | nil => rfl
    | cons t ts => exact since_items rfl (List.cons_ne_nil t ts) _
  · rw [List.map_append, map_call_items, hengine]
    exact h.leads.trans hreplays.leads
  -- ids that have not been given are not in the history
  · rw [hinstalled] at hid
    have hnot : own id entry.id = false :=
      beq_eq_false_iff_ne.mpr (Nat.ne_of_lt (Nat.lt_of_lt_of_le (htidy.lt entry hmem) hid))
    rw [turns_append, h.fresh id hid, (turns_items_of_not hnot ts _).1]
    rfl
  · rw [hengine]
    rcases List.mem_cons.mp (hperm'.subset hother) with rfl | hother
    · exact ⟨before, _, e₁, _, _, threw, _, _, _, by rw [hhistory, List.append_assoc], hthrew,
        hshare.mine hsees hreplays hledger hbooked interest⟩
    · have hne : entry.id ≠ other.id := by
        have hnodup := (hperm.map Entry.id).nodup_iff.mp htidy.ids
        intro heq
        exact (List.nodup_cons.mp hnodup).1 (heq ▸ List.mem_map_of_mem hother)
      exact ((h.alone other (hperm.symm.subset (List.mem_cons_of_mem _ hother))).other hne
        hreplays.leads).mono (hdeparted _)

/-- The entries after a step that does not use the engine. -/
theorem Linear.of_same {start : SharedEngine n} {outputLimit : ℕ} {history : EngineHistory n}
    (h : Linear hash start outputLimit history x) (hlimit : x'.outputLimit = x.outputLimit)
    (hengine : x'.engine = x.engine) (hinstalled : x.installed ≤ x'.installed)
    (hdeparted : ∀ d ∈ x.departed, d ∈ x'.departed)
    (hentries : ∀ entry ∈ x'.entries, entry ∈ x.entries
      ∨ entry.id = x.installed ∧ entry.connection = .new x.engine x.outputLimit) :
    Linear hash start outputLimit history x' where
  outputLimit := hlimit.trans h.outputLimit
  upcoming := hengine.symm ▸ h.upcoming
  settled := h.settled
  leads := hengine.symm ▸ h.leads
  fresh := fun id hid ↦ h.fresh id (hinstalled.trans hid)
  alone := by
    intro entry hmem
    rw [hengine]
    rcases hentries entry hmem with hmem | ⟨hid, hconnection⟩
    · exact (h.alone entry hmem).mono (hdeparted _)
    · exact alone_new (h.outputLimit ▸ hconnection) h.leads (h.fresh entry.id hid.ge) _

/-- **A step makes the history longer.** -/
theorem Linear.takes {start : SharedEngine n} {outputLimit : ℕ} {history : EngineHistory n}
    (h : Linear hash start outputLimit history x) (htidy : x.Tidy) (htakes : x.Takes hash x') :
    ∃ more, Linear hash start outputLimit (history ++ more) x' := by
  have hsame : Linear hash start outputLimit history x' →
      ∃ more, Linear hash start outputLimit (history ++ more) x' := fun h ↦
    ⟨[], by rwa [List.append_nil]⟩
  cases htakes with
  | nothing => exact hsame h
  | install hfree hinterest =>
    refine hsame (h.of_same rfl rfl (Nat.le_succ _) (fun _ hd ↦ hd) fun entry hmem ↦ ?_)
    rcases List.mem_cons.mp hmem with rfl | hmem
    · exact Or.inr ⟨rfl, rfl⟩
    · exact Or.inl hmem
  | remove =>
    refine hsame (h.of_same rfl rfl (Nat.le_succ _) (fun _ ↦ List.mem_cons_of_mem _)
      fun entry hmem ↦ ?_)
    rcases List.mem_cons.mp (List.perm_middle.subset hmem) with rfl | hmem
    · exact Or.inr ⟨rfl, rfl⟩
    · exact Or.inl hmem
  | keep hfind hrun hopen =>
    exact h.turn htidy (mem_of_find hfind) (htidy.perm hfind) (Connection.acts_of_run hrun) _
      (List.Perm.refl _) ⟨rfl, rfl, rfl⟩ (fun _ hd ↦ hd) (by rintro ⟨⟩)
  | @depart fd entry calls kept c departure hfind hrun hclosed =>
    exact h.turn htidy (mem_of_find hfind) (htidy.perm hfind) (Connection.acts_of_run hrun)
      entry.interest List.perm_middle ⟨rfl, rfl, rfl⟩ (fun _ ↦ List.mem_cons_of_mem _)
      (by rintro ⟨⟩)
  | @throw fd entry place reads c hfind hthrow hopen =>
    exact h.turn htidy (mem_of_find hfind) (htidy.perm hfind) (Connection.acts_of_throw hthrow)
      entry.interest List.perm_middle ⟨rfl, rfl, rfl⟩ (fun _ ↦ List.mem_cons_of_mem _)
      fun _ ↦ List.mem_cons_self
  | clear =>
    refine hsame (h.of_same rfl rfl le_rfl (fun _ ↦ List.mem_append_right _) fun entry hmem ↦
      Or.inl ?_)
    rwa [entries_clear] at hmem

/-! ## Runs -/

theorem Linear.run {start : SharedEngine n} {limit : ℕ} (steps : List LoopStep) :
    ∀ {x x' : EventLoop n} {os : List Unit} {history : EngineHistory n},
      Linear hash start limit history x → x.Tidy →
      Transition.run (EventLoop.step hash) x steps = .ok (os, x') →
        ∃ history', Linear hash start limit history' x' ∧ x'.Tidy := by
  induction steps with
  | nil =>
    intro x x' os history h htidy hrun
    cases hrun
    exact ⟨history, h, htidy⟩
  | cons step steps ih =>
    intro x x' os history h htidy hrun
    obtain ⟨o, os', x₁, hstep, hrest, -⟩ := run_cons_ok hrun
    have htakes := takes_step hstep
    obtain ⟨more, h'⟩ := h.takes htidy htakes
    exact ih h' (htidy.takes htakes) hrest

/-- **The calls of the engine have one order, and along it every connection of a worker behaves as
if it were alone.** Whatever the kernel reports and answers, and whenever connections come and go:
there is a history of the calls that the worker and others make of the engine, it leads from the
engine at the beginning to the one there is now, and each connection, open or closed, is what a
connection alone comes to in its turns of this history. -/
theorem run_linear (hash : Bytes → UInt64) (start : SharedEngine n) (outputLimit : ℕ)
    (steps : List LoopStep) {os : List Unit} {x : EventLoop n}
    (hrun : Transition.run (EventLoop.step hash) (new start outputLimit) steps = .ok (os, x)) :
    ∃ history, Linear hash start outputLimit history x := by
  obtain ⟨history, h, -⟩ := (linear_new start outputLimit).run steps (tidy_new _ _) hrun
  exact ⟨history, h⟩

/-- One client sets a key and closes its side; another gets the key; both are answered, and then the
first connection is gone. -/
private def twoClients : List LoopStep :=
  [.install 5 .watched, .install 6 .watched,
    .event 5 (epollIn ||| epollRdHup) [.ofBytes (requestFrame 2 9 [118]), .closed] [] none true,
    .event 6 epollIn [.ofBytes (requestFrame 1 10 [])] [] none true,
    .event 5 (epollOut ||| epollRdHup) [] [.ofCount 20] none true,
    .event 6 epollOut [] [.ofCount 21] none true]

/-- The calls of two clients have one history. -/
theorem run_linear_two_clients :
    ∃ os x history, Transition.run (EventLoop.step fun _ ↦ 0) (new .quiet 4096) twoClients
        = .ok (os, x)
      ∧ x.entries.map (fun entry ↦ (entry.id, entry.connection.shouldClose))
        = [(1, false), (0, true)]
      ∧ Linear (fun _ ↦ 0) .quiet 4096 history x := by
  have hstate : (Transition.run (EventLoop.step fun _ ↦ 0) (new .quiet 4096)
      twoClients).toOption.map (fun r ↦
        r.2.entries.map fun entry ↦ (entry.id, entry.connection.shouldClose))
      = some [(1, false), (0, true)] := by decide +kernel
  cases hresult : Transition.run (EventLoop.step fun _ ↦ 0) (new .quiet 4096) twoClients with
  | error fault =>
    rw [hresult] at hstate
    cases hstate
  | ok r =>
    rw [hresult] at hstate
    obtain ⟨history, hlinear⟩ := run_linear (fun _ ↦ 0) .quiet 4096 twoClients hresult
    exact ⟨r.1, r.2, history, rfl, Option.some.inj hstate, hlinear⟩

private theorem reachable_of_leads {e₀ e e' : CacheEngine n}
    (hreach : Reachable (CacheEngine.call hash) e₀ e) {xs : List (EngineCall n)}
    (h : e.Leads hash xs e') : Reachable (CacheEngine.call hash) e₀ e' := by
  obtain ⟨calls, answers, hrun⟩ := hreach
  obtain ⟨answers', hrun'⟩ := h
  refine ⟨calls ++ xs, answers ++ answers', ?_⟩
  rw [run_append hrun, hrun']
  rfl

/-! ## What the clients read

What a connection that is alone owes is known from its dialogue. Here it is said of a connection
among others, with the engine that its requests find in the history. -/

/-- **What a client reads.** It has sent requests, which have arrived up to some byte, and a part of
what the connection has sent has reached it. The turns of the connection in the history are exactly
the calls for some of its first requests, and what the client decodes are the first of the responses
these got there, one for each and with their ids. -/
def Served (hash : Bytes → UInt64) (start : CacheEngine n) (history : EngineHistory n)
    (x : EventLoop n) (entry : Entry n) : Prop :=
  ∀ (requests : List Request) (frames : List Bytes), requests.map encodeRequest = frames.map .ok →
    entry.connection.socket.received <+: frames.flatten →
    ∀ input : Buffer, input.readableView <+: entry.connection.socket.sent →
    ∃ before after e₁ e₂ executed responses read input', history = before ++ after
      ∧ turns (own entry.id) [] before = []
      ∧ start.Leads hash (before.map Occurrence.call) e₁ ∧ executed <+: requests
      ∧ Executes executed (turns (own entry.id) [] after)
      ∧ (∀ later, Transition.run (SharedEngine.respond hash)
          ⟨e₁, ahead (turns (own entry.id) [] after) later⟩ executed
        = .ok (responses, ⟨e₂, later⟩))
      ∧ e₂.Leads hash (since (own entry.id) [] after) x.engine.engine
      ∧ responses.map Response.requestId = executed.map Request.requestId
      ∧ decodeResponses input = .ok (read, input') ∧ read <+: responses

theorem Linear.served {start : SharedEngine n} {limit : ℕ} {history : EngineHistory n}
    (h : Linear hash start limit history x) {entry : Entry n} (hentry : entry ∈ x.entries) :
    Served hash start.engine history x entry := by
  intro requests frames hframes hreceived input hinput
  obtain ⟨before, after, e₁, e₂, events, threw, kept, executed, responses, hhistory, -, hshare⟩ :=
    h.alone entry hentry
  obtain ⟨herror, hrequests⟩ := contents_of_prefix (written_requests hframes) hreceived
  have hledger := hshare.ledger herror
  obtain ⟨answered, out, hanswered, hencode, hsent⟩ := hledger.sent
  have hwritten := written_responses hencode
  have hpre := hinput.trans hsent
  obtain ⟨read, input', hdecode, hreads, -⟩ :=
    decodeResponsesLoop_reads _ hwritten hpre (le_refl _)
  obtain ⟨others, -, rfl, -, -⟩ :=
    Framing.Written.reads_of_prefix (by decide) hreads hwritten hpre
  exact ⟨before, after, e₁, e₂, executed, responses, read, input', hhistory, hshare.fresh,
    hshare.start, hledger.requests.trans hrequests, hshare.executes, hshare.responds, hshare.since,
    respond_ids _ (hshare.responds x.engine.upcoming), hdecode,
    (List.prefix_append _ _).trans hanswered⟩

/-- **Every client reads the responses to its own requests, in their order, and nothing else**,
however many are connected to a worker and however their connections may have ended. The calls of
the engine have one history, which leads to the engine there is now and explains what all of them
read; nothing they get is malformed. -/
theorem run_served (hash : Bytes → UInt64) (start : SharedEngine n) (outputLimit : ℕ)
    (steps : List LoopStep) {os : List Unit} {x : EventLoop n}
    (hrun : Transition.run (EventLoop.step hash) (new start outputLimit) steps = .ok (os, x)) :
    ∃ history : EngineHistory n, Follows hash start history x.engine
      ∧ ∀ entry ∈ x.entries, Served hash start.engine history x entry := by
  obtain ⟨history, hlinear, -⟩ := (linear_new start outputLimit).run steps (tidy_new _ _) hrun
  exact ⟨history, hlinear.toFollows, fun entry hentry ↦ hlinear.served hentry⟩

/-- The two clients are answered, and the second reads what the first has written. -/
theorem run_served_two_clients :
    ∃ os x history, Transition.run (EventLoop.step fun _ ↦ 0) (new .quiet 4096) twoClients
        = .ok (os, x)
      ∧ x.entries.map (fun entry ↦ entry.connection.socket.sent)
        = [responseFrame 0 10 [118], responseFrame 0 9 []]
      ∧ Follows (fun _ ↦ 0) .quiet history x.engine
      ∧ ∀ entry ∈ x.entries, Served (fun _ ↦ 0) SharedEngine.quiet.engine history x entry := by
  have hstate : (Transition.run (EventLoop.step fun _ ↦ 0) (new .quiet 4096)
      twoClients).toOption.map (fun r ↦ r.2.entries.map fun entry ↦ entry.connection.socket.sent)
      = some [responseFrame 0 10 [118], responseFrame 0 9 []] := by decide +kernel
  cases hresult : Transition.run (EventLoop.step fun _ ↦ 0) (new .quiet 4096) twoClients with
  | error fault =>
    rw [hresult] at hstate
    cases hstate
  | ok r =>
    rw [hresult] at hstate
    obtain ⟨history, hfollows, hserved⟩ := run_served (fun _ ↦ 0) .quiet 4096 twoClients hresult
    exact ⟨r.1, r.2, history, rfl, Option.some.inj hstate, hfollows, hserved⟩

/-! ## What a worker does for them

Which events of a descriptor `epoll_wait` reports is decided by what was registered for it last. So
a connection is attended to if what is registered is what it waits for. -/

/-- **What is promised of the connections of a worker.** -/
structure Attentive (x : EventLoop n) : Prop where
  /-- No two connections have one descriptor. -/
  fds : (x.connections.map Entry.fd).Nodup
  /-- A connection that epoll watches is watched for the events it wants. -/
  watched : ∀ entry ∈ x.connections, entry.interest = none
    ∨ entry.interest = some entry.connection.desiredEvents
  /-- It wants some, and output events if there is output. -/
  wants : ∀ entry ∈ x.connections,
    (entry.connection.desiredEvents &&& epollIn ≠ 0
        ∨ entry.connection.desiredEvents &&& epollOut ≠ 0)
      ∧ (entry.connection.desiredEvents &&& epollOut ≠ 0 ↔ entry.connection.output.empty = false)
  pending : ∀ entry ∈ x.entries, entry.connection.pendingOutputBytes ≤ x.outputLimit
  /-- A connection goes with output pending only if the limit is exceeded, for an error of the
  socket or of epoll, because a handler threw, or because the worker stops. -/
  dropped : ∀ entry departure, (entry, departure) ∈ x.departed →
    entry.connection.output.empty = false → departure = .error ∨ departure = .exception
      ∨ departure = .unwatched ∨ departure = .stopped
      ∨ entry.connection.closeImmediately = some .outputLimit
      ∨ entry.connection.closeImmediately = some .socketError

section Linear

variable {capacity : UInt64} {outputLimit : ℕ} {e₀ e : CacheEngine n}
  {upcoming : ℕ → Surroundings n} {history : EngineHistory n}

theorem Linear.orderly (h : Linear hash ⟨e, upcoming⟩ outputLimit history x)
    (hnew : CacheEngine.new capacity.toNat n = .ok e₀)
    (hreach : Reachable (CacheEngine.call hash) e₀ e) {entry : Entry n}
    (hentry : entry ∈ x.entries) :
    entry.connection.Orderly ∧ entry.connection.outputLimit = x.outputLimit
      ∧ entry.connection.closeImmediately ≠ some .inputLimit := by
  obtain ⟨before, after, e₁, e₂, events, threw, kept, executed, responses, -, -, hshare⟩ :=
    h.alone entry hentry
  obtain ⟨horderly, hlimit, hne⟩ := Connection.live_orderly hash capacity.toNat_lt hnew
    (reachable_of_leads hreach hshare.start) _ (hshare.live x.engine.upcoming)
  exact ⟨⟨⟨horderly.drained, horderly.pending⟩, horderly.closing⟩, hlimit.trans h.outputLimit.symm,
    hne⟩

theorem Linear.attentive (hlinear : Linear hash ⟨e, upcoming⟩ outputLimit history x)
    (hnew : CacheEngine.new capacity.toNat n = .ok e₀)
    (hreach : Reachable (CacheEngine.call hash) e₀ e) (htidy : x.Tidy) : x.Attentive := by
  have horderly : ∀ entry ∈ x.entries, entry.connection.Orderly
      ∧ entry.connection.outputLimit = x.outputLimit
      ∧ entry.connection.closeImmediately ≠ some .inputLimit :=
    fun _ hentry ↦ hlinear.orderly hnew hreach hentry
  have hkept : ∀ entry ∈ x.connections, entry ∈ x.entries := fun _ hmem ↦
    List.mem_append_left _ hmem
  refine ⟨htidy.fds, fun entry hmem ↦ (htidy.kept entry hmem).2, fun entry hmem ↦ ?_,
    fun entry hmem ↦ ?_, fun entry departure hmem hpending ↦ ?_⟩
  · have hopen := (htidy.kept entry hmem).1
    refine ⟨?_, Connection.desiredEvents_out hopen⟩
    rw [Connection.desiredEvents_in hopen, Connection.desiredEvents_out hopen]
    -- one that is not read any more has output, or it would be closed
    by_cases hread : entry.connection.closeAfterWrite = true ∨ entry.connection.peerClosed = true
    · refine Or.inr (Bool.not_eq_true _ ▸ fun hempty ↦ ?_)
      rw [(horderly entry (hkept entry hmem)).1.closing hread
        (entry.connection.output.empty_iff.mp hempty)] at hopen
      cases hopen
    · exact Or.inl hread
  · obtain ⟨h, hlimit, -⟩ := horderly entry hmem
    exact hlimit ▸ h.pending
  · obtain ⟨h, -, hne⟩ := horderly entry
      (List.mem_append_right _ (List.mem_map_of_mem (f := Prod.fst) hmem))
    cases departure with
    | error => exact Or.inl rfl
    | exception => exact Or.inr (Or.inl rfl)
    | unwatched => exact Or.inr (Or.inr (Or.inl rfl))
    | stopped => exact Or.inr (Or.inr (Or.inr (Or.inl rfl)))
    | closed =>
      refine Or.inr (Or.inr (Or.inr (Or.inr ?_)))
      have hclosed := (htidy.departed entry .closed hmem).mp rfl
      -- dropped because it was closed: the reason is that of the connection
      obtain ⟨reason, hreason⟩ := Option.isSome_iff_exists.mp hclosed
      cases reason with
      | inputLimit => exact absurd hreason hne
      | outputLimit => exact Or.inl hreason
      | socketError => exact Or.inr hreason
      | drained =>
        rw [entry.connection.output.empty_iff.mpr (h.drained hreason)] at hpending
        cases hpending

end Linear

/-- **A worker attends to all its connections**, whatever the kernel reports and answers. -/
theorem run_attentive (hash : Bytes → UInt64) (capacity outputLimit : UInt64)
    {e₀ e : CacheEngine n} (hnew : CacheEngine.new capacity.toNat n = .ok e₀)
    (hreach : Reachable (CacheEngine.call hash) e₀ e) (upcoming : ℕ → Surroundings n)
    (steps : List LoopStep) {os : List Unit} {x : EventLoop n}
    (hrun : Transition.run (EventLoop.step hash) (new ⟨e, upcoming⟩ outputLimit.toNat) steps
      = .ok (os, x)) : x.Attentive := by
  obtain ⟨history, hlinear, htidy⟩ := (linear_new ⟨e, upcoming⟩ _).run steps (tidy_new _ _) hrun
  exact hlinear.attentive hnew hreach htidy

/-- A third client, which sets the key too; memory runs out for the response. -/
private def thirdThrows : List LoopStep :=
  twoClients ++ [.install 7 .watched,
    .event 7 epollIn [.ofBytes (requestFrame 2 11 [118])] [] (some (.queueing 0)) true]

/-- The connection whose client has closed its side is gone, and so is the one whose handler threw.
The other is watched for input. -/
theorem run_attentive_third_throws :
    ∃ os x, Transition.run (EventLoop.step fun _ ↦ 0) (new .quiet (4096 : UInt64).toNat)
        thirdThrows = .ok (os, x)
      ∧ x.connections.map (fun entry ↦ (entry.fd, entry.interest))
        = [(6, some (epollRdHup ||| epollIn))]
      ∧ x.departed.map (fun d ↦ (d.1.fd, d.2)) = [(7, .exception), (5, .closed)]
      ∧ x.Attentive := by
  have hstate : (Transition.run (EventLoop.step fun _ ↦ 0) (new .quiet (4096 : UInt64).toNat)
      thirdThrows).toOption.map (fun r ↦
        (r.2.connections.map (fun entry ↦ (entry.fd, entry.interest)),
          r.2.departed.map fun d ↦ (d.1.fd, d.2)))
      = some ([(6, some (epollRdHup ||| epollIn))], [(7, .exception), (5, .closed)]) := by
    decide +kernel
  cases hresult : Transition.run (EventLoop.step fun _ ↦ 0) (new .quiet (4096 : UInt64).toNat)
      thirdThrows with
  | error fault =>
    rw [hresult] at hstate
    cases hstate
  | ok r =>
    rw [hresult] at hstate
    obtain ⟨hconnections, hdeparted⟩ := Prod.mk.inj (Option.some.inj hstate)
    exact ⟨r.1, r.2, rfl, hconnections, hdeparted,
      run_attentive (fun _ ↦ 0) 100 4096 new_quiet (.refl _ _) quiet.upcoming thirdThrows hresult⟩

end EventLoop

end HighCache
