import MuduoZ.OutputStream

/-!
A thread that sends some messages and then shuts the connection down, while the loop thread
drains the output buffer and runs the queued functions.

`shutDown` changes the state at once, but the messages are still in the queue. If the earlier
bytes are drained then, `handleWrite` takes the empty buffer for the end of the output.
-/

namespace MuduoZ.Shutdown

open Connection Runs

/-- A call of the thread. -/
inductive Call
  | send (msg : Str)
  | shutDown

/-- The connection, and the calls the thread has still to make. -/
structure Sys where
  conn : Connection
  calls : List Call

/-- The next call of the thread, or a step of the loop thread. -/
inductive Action
  | call
  | handleWrite (written : Option ℕ)
  | task (written : Option ℕ)

def step (s : Sys) : Action → Result Sys
  | .call => match s.calls with
    | [] => .ok s
    | .send msg :: calls => do .ok ⟨← s.conn.send false msg none, calls⟩
    | .shutDown :: calls => do .ok ⟨← s.conn.shutDown false, calls⟩
  | .handleWrite written => .ok { s with conn := s.conn.handleWrite written }
  | .task written => match s.conn.pendingFunctions_ with
    | [] => .ok s
    | t :: ts => do
      .ok { s with conn := ← { s.conn with pendingFunctions_ := ts }.runTask written t }

/-- The thread sends the messages and shuts down. -/
def start (c : Connection) (msgs : List Str) : Sys := ⟨c, msgs.map .send ++ [.shutDown]⟩

/-- Where the log has a half-close, the socket has accepted everything. -/
def ClosedLast (whole : Str) (log : List Effect) : Prop :=
  ∀ i, log[i]? = some .shutdownWrite → accepted (log.take i) = whole

/-- The writes of the step do not fail, and report no more bytes than an `int` holds. -/
def Action.Writes : Action → Prop
  | .call => True
  | .handleWrite written => ∃ n ≤ INT_MAX, written = some n
  | .task written => ∃ n ≤ INT_MAX, written = some n

/-- The bytes of the queued messages. -/
def queued (ts : List Task) : Str := ts.flatMap fun
  | .sendInLoop msg => msg
  | _ => []

/-- The bytes of the messages that are still to be sent. -/
def unsent (calls : List Call) : Str := calls.flatMap fun
  | .send msg => msg
  | .shutDown => []

/-- The output buffer is not emptied while the connection is being shut down and bytes that
were sent before are in the queue. -/
def NotEarly (s : Sys) : Action → Prop
  | .handleWrite written =>
    s.conn.state_ = .Disconnecting → s.conn.Drains written → queued s.conn.pendingFunctions_ = []
  | _ => True

/-! ### The log -/

lemma closedLast_split {whole : Str} {log l : List Effect} : ClosedLast whole (log ++ l) ↔
    ClosedLast whole log ∧
      ∀ j, l[j]? = some .shutdownWrite → accepted (log ++ l.take j) = whole := by
  constructor
  · intro hc
    refine ⟨fun i hi => ?_, fun j hj => ?_⟩
    · have hlt : i < log.length := (List.getElem?_eq_some_iff.mp hi).1
      have := hc i (by rw [List.getElem?_append_left hlt, hi])
      rwa [List.take_append_of_le_length hlt.le] at this
    · have := hc (log.length + j) (by rw [List.getElem?_append_right (by omega)]; simpa using hj)
      rwa [List.take_length_add_append] at this
  · rintro ⟨h1, h2⟩ i hi
    rcases lt_or_ge i log.length with hlt | hge
    · rw [List.getElem?_append_left hlt] at hi
      rw [List.take_append_of_le_length hlt.le]
      exact h1 i hi
    · obtain ⟨j, rfl⟩ := Nat.exists_eq_add_of_le hge
      rw [List.getElem?_append_right hge, Nat.add_sub_cancel_left] at hi
      rw [List.take_length_add_append]
      exact h2 j hi

lemma closedLast_append {whole : Str} {log l : List Effect} (h : .shutdownWrite ∉ l) :
    ClosedLast whole (log ++ l) ↔ ClosedLast whole log := by
  rw [closedLast_split, and_iff_left]
  intro j hj
  exact absurd (List.mem_of_getElem? hj) h

lemma closedLast_shutdown {whole : Str} {log : List Effect} :
    ClosedLast whole (log ++ [.shutdownWrite]) ↔ ClosedLast whole log ∧ accepted log = whole := by
  rw [closedLast_split]
  refine and_congr_right fun _ => ⟨fun h => by simpa using h 0 rfl, fun h j hj => ?_⟩
  cases j with
  | zero => simpa using h
  | succ j => simp at hj

/-! ### The queue -/

@[simp] lemma queued_append (ts us : List Task) : queued (ts ++ us) = queued ts ++ queued us :=
  List.flatMap_append

/-- Nothing to send is queued after the half-close. -/
def Ordered : List Task → Prop
  | [] => True
  | .shutDownInLoop :: ts => queued ts = []
  | _ :: ts => Ordered ts

lemma ordered_of_notMem {ts : List Task} (h : .shutDownInLoop ∉ ts) : Ordered ts := by
  induction ts with
  | nil => trivial
  | cons t ts ih =>
    obtain ⟨hne, hts⟩ := not_or.mp (mt List.mem_cons.mpr h)
    cases t with
    | shutDownInLoop => exact absurd rfl hne
    | _ => exact ih hts

lemma Ordered.append {ts us : List Task} (h : Ordered ts) (hu : Ordered us)
    (hq : queued us = []) : Ordered (ts ++ us) := by
  induction ts with
  | nil => exact hu
  | cons t ts ih =>
    cases t with
    | shutDownInLoop => exact (queued_append ts us).trans (by rw [hq, List.append_nil]; exact h)
    | _ => exact ih h

lemma ordered_of_queued {ts : List Task} (h : queued ts = []) : Ordered ts := by
  induction ts with
  | nil => trivial
  | cons t ts ih =>
    have hts : queued ts = [] := (List.append_eq_nil_iff.mp (h : _ ++ queued ts = [])).2
    cases t with
    | shutDownInLoop => exact hts
    | _ => exact ih hts

/-! ### The run -/

/-- The thread is sending, or it has shut the connection down. -/
def Phase (state : State) (ts : List Task) (calls : List Call) : Prop :=
  (state = .Connected ∧ .shutDownInLoop ∉ ts ∧
    ∃ msgs : List Str, calls = msgs.map .send ++ [.shutDown]) ∨
  (state = .Disconnecting ∧ calls = [] ∧ Ordered ts)

lemma Phase.tail {state : State} {t : Task} {ts : List Task} {calls : List Call}
    (h : Phase state (t :: ts) calls) (ht : t ≠ .shutDownInLoop) : Phase state ts calls := by
  rcases h with ⟨hst, hno, hmsgs⟩ | ⟨hst, hcalls, hord⟩
  · exact .inl ⟨hst, fun hmem => hno (List.mem_cons_of_mem _ hmem), hmsgs⟩
  · refine .inr ⟨hst, hcalls, ?_⟩
    cases t with
    | shutDownInLoop => exact absurd rfl ht
    | _ => exact hord

/-- The earlier bytes and the messages are somewhere on their way, in this order. -/
structure Inv (whole : Str) (s : Sys) : Prop where
  valid : s.conn.outputBuffer_.Valid
  watched : s.conn.outputBuffer_.readable ≠ [] → s.conn.channel_.isWriteEvent = true
  stream : accepted s.conn.log ++ (s.conn.outputBuffer_.readable ++
    (queued s.conn.pendingFunctions_ ++ unsent s.calls)) = whole
  noForce : .forceCloseInLoop ∉ s.conn.pendingFunctions_
  phase : Phase s.conn.state_ s.conn.pendingFunctions_ s.calls
  closed : ClosedLast whole s.conn.log

/-- What waits to be written stays watched when a message is added to it. -/
lemma watched_append {c : Connection} {out : Buffer} {left : Str}
    (hw : c.outputBuffer_.readable ≠ [] → c.channel_.isWriteEvent = true)
    (hr : out.readable = c.outputBuffer_.readable ++ left) (hne : out.readable ≠ []) :
    (c.watching left).isWriteEvent = true := by
  rw [isWriteEvent_watching]
  refine or_iff_not_imp_right.mpr fun hleft => hw ?_
  rwa [hr, not_not.mp hleft, List.append_nil] at hne

lemma length_gone_le {c : Connection} {written : Option ℕ}
    (h : (Action.handleWrite written).Writes) : (c.gone written).length ≤ INT_MAX := by
  obtain ⟨n, hn, rfl⟩ := h
  exact (List.length_take_le ..).trans hn

lemma call_inv {whole : Str} {s s' : Sys} (hs : Inv whole s) (h : step s .call = .ok s') :
    Inv whole s' := by
  obtain ⟨hv, hw, hstream, hf, hphase, hcl⟩ := hs
  rcases hphase with ⟨hst, hno, msgs, hcalls⟩ | ⟨hst, hcalls, hord⟩
  · rw [hcalls] at hstream
    cases msgs with
    | nil =>
      simp [step, hcalls, Connection.shutDown, hst, runInLoop, queueInLoop] at h
      subst h
      refine ⟨hv, hw, by simpa [queued, unsent] using hstream, by simpa using hf,
        .inr ⟨rfl, rfl, (ordered_of_notMem hno).append rfl rfl⟩, hcl⟩
    | cons msg msgs =>
      simp [step, hcalls, Connection.send, hst, runInLoop, queueInLoop] at h
      subst h
      refine ⟨hv, hw, by simpa [queued, unsent] using hstream, by simpa using hf,
        .inl ⟨rfl, by simpa using hno, msgs, rfl⟩, hcl⟩
  · simp [step, hcalls] at h
    subst h
    exact ⟨hv, hw, hstream, hf, .inr ⟨hst, hcalls, hord⟩, hcl⟩

lemma handleWrite_inv {whole : Str} {s s' : Sys} {written : Option ℕ} (hs : Inv whole s)
    (hw : (Action.handleWrite written).Writes) (hk : NotEarly s (.handleWrite written))
    (h : step s (.handleWrite written) = .ok s') : Inv whole s' := by
  obtain ⟨hv, hwatch, hstream, hf, hphase, hcl⟩ := hs
  have hsplit := gone_append_drop (length_gone_le (c := s.conn) hw)
  obtain ⟨out, hv', hr, hdrain, hpart⟩ := handleWrite_spec hv written
  obtain rfl : { s with conn := s.conn.handleWrite written } = s' := Except.ok.inj h
  rw [← hsplit] at hstream
  by_cases hd : s.conn.Drains written
  · have hnil : s.conn.outputBuffer_.readable.drop (s.conn.dropped written) = [] :=
      List.drop_eq_nil_of_le hd.2.ge
    rw [hnil] at hstream hr
    rw [hdrain hd]
    generalize hl : (if s.conn.messageSendCallBack_ then [Task.messageSendCallBack] else []) = l
    have hq : queued l = [] ∧ Ordered l ∧ .shutDownInLoop ∉ l ∧ .forceCloseInLoop ∉ l := by
      subst hl
      cases s.conn.messageSendCallBack_ <;> exact ⟨rfl, trivial, by simp, by simp⟩
    obtain ⟨hql, hol, hsl, hfl⟩ := hq
    have hgone : .shutdownWrite ∉ [Effect.wrote (s.conn.gone written)] := by simp
    have hacc : accepted (s.conn.log ++ [.wrote (s.conn.gone written)]) ++
        (queued s.conn.pendingFunctions_ ++ unsent s.calls) = whole := by
      rw [← hstream]; simp
    rcases hphase with ⟨hst, hno, hmsgs⟩ | ⟨hst, hcalls, hord⟩
    · have hopen : ¬ s.conn.state_ = .Disconnecting := by rw [hst]; decide
      rw [if_neg hopen, List.append_nil]
      refine ⟨hv', fun hne => absurd hr hne, by simpa [hr, hql] using hacc, ?_,
        .inl ⟨hst, ?_, hmsgs⟩, (closedLast_append hgone).mpr hcl⟩
      · simpa using ⟨hf, hfl⟩
      · simpa using ⟨hno, hsl⟩
    · -- the shutdown goes on here, and nothing is on its way any more
      rw [if_pos hst]
      have hwhole : accepted (s.conn.log ++ [.wrote (s.conn.gone written)]) = whole := by
        rw [← hacc, hk hst hd, hcalls]; simp [unsent]
      refine ⟨hv', fun hne => absurd hr hne, by simpa [hr, hql] using hacc, ?_,
        .inr ⟨hst, hcalls, hord.append hol hql⟩,
        closedLast_shutdown.mpr ⟨(closedLast_append hgone).mpr hcl, hwhole⟩⟩
      simpa using ⟨hf, hfl⟩
  · rw [hpart hd]
    have hdrop : s.conn.outputBuffer_.readable.drop (s.conn.dropped written) ≠ [] →
        s.conn.channel_.isWriteEvent = true := by
      intro hne
      refine hwatch fun hnil => hne ?_
      rw [hnil, List.drop_nil]
    refine ⟨hv', by rwa [hr], by simpa [hr] using hstream, hf, hphase, ?_⟩
    exact (closedLast_append (by simp)).mpr hcl

/-- A queued message is sent, or joins what waits to be written. -/
lemma sendTask_inv {whole msg : Str} {s : Sys} {ts : List Task} {written : Option ℕ}
    {c' : Connection} (hs : Inv whole s) (hw : (Action.task written).Writes)
    (hp : s.conn.pendingFunctions_ = .sendInLoop msg :: ts)
    (hc' : { s.conn with pendingFunctions_ := ts }.runTask written (.sendInLoop msg) = .ok c') :
    Inv whole { s with conn := c' } := by
  obtain ⟨hv, hwatch, hstream, hf, hphase, hcl⟩ := hs
  obtain ⟨n, -, hn⟩ := hw
  rw [hp] at hstream hf hphase
  obtain ⟨-, hf'⟩ := not_or.mp (mt List.mem_cons.mpr hf)
  obtain ⟨out, log, heq, hv', hr, hh, ha, hno, -⟩ :=
    sendInLoop_spec (c := { s.conn with pendingFunctions_ := ts }) hv msg written
  obtain rfl := Except.ok.inj (heq.symm.trans hc')
  have hk : OutputStream.Kept { s.conn with pendingFunctions_ := ts }
      (.sendInLoop msg written) := fun _ _ => by simp [hn]
  have hsplit := OutputStream.taken_kept hk
  have hcomm := OutputStream.taken_readable (c := { s.conn with pendingFunctions_ := ts })
    hv msg written
  refine ⟨hv', watched_append (c := { s.conn with pendingFunctions_ := ts }) hwatch hr, ?_,
    hf', hphase.tail (by simp), (closedLast_append hno).mpr hcl⟩
  have hswap : ∀ rest, taken { s.conn with pendingFunctions_ := ts } msg written ++
      (s.conn.outputBuffer_.readable ++ rest) = s.conn.outputBuffer_.readable ++
        (taken { s.conn with pendingFunctions_ := ts } msg written ++ rest) := by
    intro rest
    rw [← List.append_assoc, hcomm, List.append_assoc]
  have hq : queued (.sendInLoop msg :: ts) = msg ++ queued ts := rfl
  rw [hq] at hstream
  nth_rewrite 1 [← hsplit] at hstream
  simp only [List.append_assoc, accepted_append, ha, hr, hswap] at hstream ⊢
  exact hstream

/-- The queued half-close is made if nothing waits to be written. -/
lemma shutDownTask_inv {whole : Str} {s : Sys} {ts : List Task} (hs : Inv whole s)
    (hp : s.conn.pendingFunctions_ = .shutDownInLoop :: ts) :
    Inv whole { s with conn := shutDownInLoop { s.conn with pendingFunctions_ := ts } } := by
  obtain ⟨hv, hwatch, hstream, hf, hphase, hcl⟩ := hs
  rw [hp] at hstream hf hphase
  obtain ⟨-, hf'⟩ := not_or.mp (mt List.mem_cons.mpr hf)
  rcases hphase with ⟨-, hno, -⟩ | ⟨hst, hcalls, hq⟩
  · simp at hno
  · have hphase' : Phase s.conn.state_ ts s.calls := .inr ⟨hst, hcalls, ordered_of_queued hq⟩
    have hstream' : accepted s.conn.log ++ (s.conn.outputBuffer_.readable ++
        (queued ts ++ unsent s.calls)) = whole := hstream
    unfold shutDownInLoop
    cases hwe : s.conn.channel_.isWriteEvent with
    | true =>
      rw [if_neg (by simp)]
      exact ⟨hv, hwatch, hstream', hf', hphase', hcl⟩
    | false =>
      rw [if_pos (by simp)]
      -- what is not watched for writing has nothing left to write
      have hnil : s.conn.outputBuffer_.readable = [] := by
        by_contra hne
        rw [hwatch hne] at hwe
        cases hwe
      have hwhole : accepted s.conn.log = whole := by
        rw [← hstream', hnil, hq, hcalls]; simp [unsent]
      exact ⟨hv, hwatch, by simpa [emit] using hstream', hf', hphase',
        closedLast_shutdown.mpr ⟨hcl, hwhole⟩⟩

lemma task_inv {whole : Str} {s s' : Sys} {written : Option ℕ} (hs : Inv whole s)
    (hw : (Action.task written).Writes) (h : step s (.task written) = .ok s') : Inv whole s' := by
  cases hp : s.conn.pendingFunctions_ with
  | nil =>
    obtain rfl : s = s' := by simpa [step, hp] using h
    exact hs
  | cons t ts =>
    simp only [step, hp] at h
    obtain ⟨c', hc', h⟩ := bind_ok_iff.mp h
    cases h
    cases t with
    | sendInLoop msg => exact sendTask_inv hs hw hp hc'
    | shutDownInLoop =>
      obtain rfl : shutDownInLoop { s.conn with pendingFunctions_ := ts } = c' :=
        Except.ok.inj hc'
      exact shutDownTask_inv hs hp
    | forceCloseInLoop => exact absurd (hp ▸ List.mem_cons_self) hs.noForce
    | messageSendCallBack =>
      obtain ⟨hv, hwatch, hstream, hf, hphase, hcl⟩ := hs
      rw [hp] at hstream hf hphase
      obtain rfl := Except.ok.inj hc'
      exact ⟨hv, hwatch, by simpa [emit, queued] using hstream,
        fun hmem => hf (List.mem_cons_of_mem _ hmem), hphase.tail (by simp),
        (closedLast_append (by simp)).mpr hcl⟩

lemma step_inv {whole : Str} (s : Sys) (a : Action) (s' : Sys) (hs : Inv whole s) (hw : a.Writes)
    (hk : NotEarly s a) (h : step s a = .ok s') : Inv whole s' := by
  cases a with
  | call => exact call_inv hs h
  | handleWrite written => exact handleWrite_inv hs hw hk h
  | task written => exact task_inv hs hw h

/-- The half-close of a drain that comes too early leaves the queued bytes behind. -/
lemma step_early {whole : Str} (s : Sys) (a : Action) (s' : Sys) (hs : Inv whole s)
    (hw : a.Writes) (hk : ¬ NotEarly s a) (h : step s a = .ok s') :
    ¬ ClosedLast whole s'.conn.log := by
  cases a with
  | call => exact absurd trivial hk
  | task written => exact absurd trivial hk
  | handleWrite written =>
    obtain ⟨hst, hd, hq⟩ : s.conn.state_ = .Disconnecting ∧ s.conn.Drains written ∧
        queued s.conn.pendingFunctions_ ≠ [] := by simpa [NotEarly] using hk
    have hsplit := gone_append_drop (length_gone_le (c := s.conn) hw)
    rw [List.drop_eq_nil_of_le hd.2.ge, List.append_nil] at hsplit
    obtain ⟨out, -, -, hdrain, -⟩ := handleWrite_spec hs.valid written
    obtain rfl : { s with conn := s.conn.handleWrite written } = s' := Except.ok.inj h
    rw [hdrain hd, if_pos hst]
    intro hcl
    have hacc := (closedLast_shutdown.mp hcl).2
    have hstream := hs.stream
    rw [← hacc] at hstream
    simp [hsplit] at hstream
    exact hq hstream.1

/-! ### Where the run starts -/

/-- A connected connection: what waits to be written is watched, and nothing else is queued. -/
structure Ready (c : Connection) : Prop where
  valid : c.outputBuffer_.Valid
  watched : c.outputBuffer_.readable ≠ [] → c.channel_.isWriteEvent = true
  connected : c.state_ = .Connected
  idle : ∀ t ∈ c.pendingFunctions_, t = .messageSendCallBack
  unclosed : .shutdownWrite ∉ c.log

lemma ready_step (c : Connection) (op : OutputStream.Op) (c' : Connection) (hc : Ready c)
    (h : OutputStream.step c op = .ok c') : Ready c' := by
  obtain ⟨hv, hw, hst, hidle, hcl⟩ := hc
  cases op with
  | sendInLoop msg written =>
    obtain ⟨out, log, heq, hv', hr, -, -, hno, -⟩ := sendInLoop_spec hv msg written
    obtain rfl := Except.ok.inj (heq.symm.trans h)
    exact ⟨hv', watched_append hw hr, hst, hidle, by simpa using ⟨hcl, hno⟩⟩
  | handleWrite written =>
    obtain ⟨out, hv', hr, hdrain, hpart⟩ := handleWrite_spec hv written
    obtain rfl : c.handleWrite written = c' := Except.ok.inj h
    by_cases hd : c.Drains written
    · rw [hdrain hd]
      refine ⟨hv', fun hne => ?_, hst, ?_, by simp [hst, hcl]⟩
      · exact absurd (hr.trans (List.drop_eq_nil_of_le hd.2.ge)) hne
      · intro t ht
        rcases List.mem_append.mp ht with ht | ht
        · exact hidle t ht
        · split_ifs at ht
          · exact List.mem_singleton.mp ht
          · simp at ht
    · rw [hpart hd]
      refine ⟨hv', fun hne => hw fun hnil => hne ?_, hst, hidle, by simpa using hcl⟩
      rw [hr, hnil, List.drop_nil]

lemma established_ready (received sent : Bool) : Ready (OutputStream.established received sent) :=
  ⟨Buffer.new_valid 1024,
    fun hne => absurd (Buffer.new_readable 1024) hne, rfl,
    fun t ht => by simp [OutputStream.established, Connection.new, connectEstablished, emit] at ht,
    by simp [OutputStream.established, Connection.new, connectEstablished, emit]⟩

lemma Ready.inv {c : Connection} (h : Ready c) (msgs : List Str) :
    Inv (accepted c.log ++ c.outputBuffer_.readable ++ msgs.flatten) (start c msgs) := by
  have hq : queued c.pendingFunctions_ = [] :=
    List.flatMap_eq_nil_iff.mpr fun t ht => by rw [h.idle t ht]
  have hu : unsent (start c msgs).calls = msgs.flatten := by
    simp [start, unsent, List.flatMap_map]
  refine ⟨h.valid, h.watched, ?_, fun hf => ?_, .inl ⟨h.connected, fun hs => ?_, msgs, rfl⟩, ?_⟩
  · rw [hu]
    simp [start, hq]
  · cases h.idle _ hf
  · cases h.idle _ hs
  · exact fun i hi => absurd (List.mem_of_getElem? hi) h.unclosed

lemma step_total (s : Sys) (a : Action) (hs : s.conn.outputBuffer_.Valid) :
    ∃ s', step s a = .ok s' ∧ s'.conn.outputBuffer_.Valid := by
  cases a with
  | call =>
    rcases hc : s.calls with _ | ⟨msg | _, calls⟩
    · exact ⟨s, by simp [step, hc], hs⟩
    · obtain ⟨c, hcall, hv⟩ := send_total hs false msg none
      exact ⟨⟨c, calls⟩, by simp [step, hc, hcall], hv⟩
    · obtain ⟨c, hcall, hv⟩ := shutDown_total hs false
      exact ⟨⟨c, calls⟩, by simp [step, hc, hcall], hv⟩
  | handleWrite written => exact ⟨_, rfl, handleWrite_valid hs written⟩
  | task written =>
    rcases hp : s.conn.pendingFunctions_ with _ | ⟨t, ts⟩
    · exact ⟨s, by simp [step, hp], hs⟩
    · obtain ⟨c, hcall, hv⟩ := runTask_total (c := { s.conn with pendingFunctions_ := ts })
        hs written t
      exact ⟨⟨c, s.calls⟩, by simp [step, hp, hcall], hv⟩

/-- **The half-close comes last along a run exactly when no drain comes too early in it**, and
every run goes through. -/
theorem closedLast_iff (received sent : Bool) (ops : List OutputStream.Op) (c : Connection)
    (hc : exec OutputStream.step (OutputStream.established received sent) ops = .ok c)
    (msgs : List Str) (as : List Action) (hw : ∀ a ∈ as, a.Writes) :
    (∃ s, exec step (start c msgs) as = .ok s) ∧
      (Along step (fun s =>
          ClosedLast (accepted c.log ++ c.outputBuffer_.readable ++ msgs.flatten) s.conn.log)
          (start c msgs) as ↔
        Each step NotEarly (start c msgs) as) := by
  have hready : Ready c := exec_inv ready_step (established_ready received sent) hc
  obtain ⟨s, hs, -⟩ := exec_total step_total (s := start c msgs) hready.valid as
  exact ⟨⟨s, hs⟩, along_iff_each_of step_inv (fun _ h => h.closed) step_early (hready.inv msgs)
    (each_of_forall (fun a ha _ => hw a ha) _)⟩

theorem closedLast_iff_one :
    (∃ s, exec step (start (OutputStream.established true false) [[1]])
      [.call, .task (some 1), .call, .task (some 0)] = .ok s) ∧
    (Along step (fun s => ClosedLast (accepted (OutputStream.established true false).log ++
          (OutputStream.established true false).outputBuffer_.readable ++ [[1]].flatten) s.conn.log)
        (start (OutputStream.established true false) [[1]])
        [.call, .task (some 1), .call, .task (some 0)] ↔
      Each step NotEarly (start (OutputStream.established true false) [[1]])
        [.call, .task (some 1), .call, .task (some 0)]) :=
  closedLast_iff true false [] _ rfl [[1]] _ (by simp [Action.Writes, INT_MAX])

/-- One byte waits, a message is queued and the connection is shut down; then the byte goes. -/
theorem early_half_close : ∃ c : Connection,
    exec OutputStream.step (OutputStream.established true false)
      [.sendInLoop [1, 2] (some 1)] = .ok c ∧
    (∀ a ∈ [Action.call, .call, .handleWrite (some 1)], a.Writes) ∧
    ¬ Along step
      (fun s => ClosedLast (accepted c.log ++ c.outputBuffer_.readable ++ [[3]].flatten) s.conn.log)
      (start c [[3]]) [.call, .call, .handleWrite (some 1)] := by
  have hready := established_ready true false
  have hdirect : (OutputStream.established true false).direct = true := rfl
  have hempty : (OutputStream.established true false).outputBuffer_.readable = [] :=
    Buffer.new_readable 1024
  obtain ⟨out, log, heq, -, hr, -⟩ := sendInLoop_spec hready.valid [1, 2] (some 1)
  rw [hempty, kept, if_pos hdirect] at hr
  obtain ⟨c, hc, hst, hp, hout⟩ : ∃ c : Connection,
      OutputStream.step (OutputStream.established true false) (.sendInLoop [1, 2] (some 1)) =
        .ok c ∧ c.state_ = .Connected ∧ c.pendingFunctions_ = [] ∧ c.outputBuffer_.readable = [2] :=
    ⟨_, heq, rfl, rfl, hr⟩
  have hw : ∀ a ∈ [Action.call, .call, .handleWrite (some 1)], a.Writes := by
    simp [Action.Writes, INT_MAX]
  refine ⟨c, by rw [exec_cons_ok _ hc]; rfl, hw, fun h => ?_⟩
  have hi := (ready_step _ _ _ hready hc).inv [[3]]
  have h1 : step (start c [[3]]) .call = .ok ⟨c.queueInLoop (.sendInLoop [3]), [.shutDown]⟩ := by
    simp [step, start, send, hst, runInLoop]
  obtain ⟨s, h2, hst', hp', hout'⟩ : ∃ s,
      step ⟨c.queueInLoop (.sendInLoop [3]), [.shutDown]⟩ .call = .ok s ∧
        s.conn.state_ = .Disconnecting ∧ queued s.conn.pendingFunctions_ = [3] ∧
        s.conn.outputBuffer_.readable = [2] :=
    ⟨⟨{ c.queueInLoop (.sendInLoop [3]) with state_ := .Disconnecting }.queueInLoop
        .shutDownInLoop, []⟩,
      by simp [step, Connection.shutDown, queueInLoop, hst, runInLoop], rfl,
      by simp [queueInLoop, queued, hp], hout⟩
  have h3 : step s (.handleWrite (some 1)) =
      .ok { s with conn := s.conn.handleWrite (some 1) } := rfl
  have halong := (along_cons.mp ((along_cons.mp ((along_cons.mp h).2 _ h1)).2 _ h2)).2 _ h3
  have hcl := along_nil.mp halong
  refine step_early s (.handleWrite (some 1)) _ (call_inv (call_inv hi h1) h2) (hw _ (by simp)) ?_
    h3 hcl
  intro hk
  have hd : s.conn.Drains (some 1) := by
    simp [Drains, dropped, Buffer.writeFd, hout', toInt]
  rw [hk hst' hd] at hp'
  cases hp'

end MuduoZ.Shutdown
