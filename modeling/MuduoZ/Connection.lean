import MuduoZ.Buffer
import MuduoZ.Channel

/-!
A connection: its state, its channel, its two buffers and its part of the loop's queue.

What the connection does outside itself is entered in a log. A user callback is one entry: it
is the last thing done by the function that runs it, so the calls it makes on the connection
are calls that follow.
-/

namespace MuduoZ

namespace Connection

inductive State
  | Connecting | Connected | Disconnecting | Disconnected
  deriving DecidableEq, Repr

/-- A function queued in the loop. -/
inductive Task
  | sendInLoop (msg : Str)
  | shutDownInLoop
  | forceCloseInLoop
  | messageSendCallBack
  deriving DecidableEq, Repr

inductive Effect
  | handed (msg : Str)   -- a message given to `sendInLoop`
  | wrote (bytes : Str)  -- the bytes a write got the socket to accept
  | shutdownWrite
  | connectEstablishedCallBack
  | messageReceivedCallBack
  | messageSendCallBack
  | connectCloseCallBack
  deriving DecidableEq, Repr

@[simp] def Effect.message : Effect → Option Str
  | .handed msg => some msg
  | _ => none

@[simp] def Effect.acceptedBytes : Effect → Str
  | .wrote bytes => bytes
  | _ => []

end Connection

open Connection in
/-- A callback that the user may leave empty is there or not. -/
structure Connection where
  state_ : State
  channel_ : Channel
  inputBuffer_ : Buffer
  outputBuffer_ : Buffer
  messageReceivedCallBack_ : Bool
  messageSendCallBack_ : Bool
  pendingFunctions_ : List Task
  log : List Effect
  deriving DecidableEq, Repr

namespace Connection

/-- The messages given to `sendInLoop`. -/
def messages (log : List Effect) : List Str := log.filterMap Effect.message

/-- What the socket has accepted. -/
def accepted (log : List Effect) : Str := log.flatMap Effect.acceptedBytes

def new (messageReceivedCallBack messageSendCallBack : Bool) : Connection :=
  ⟨.Connecting, .new, .new, .new, messageReceivedCallBack, messageSendCallBack, [], []⟩

variable (c : Connection)

def emit (e : Effect) : Connection := { c with log := c.log ++ [e] }

def queueInLoop (t : Task) : Connection :=
  { c with pendingFunctions_ := c.pendingFunctions_ ++ [t] }

def connectEstablished : Connection :=
  { c with state_ := .Connected, channel_ := c.channel_.enableReadEvent }.emit
    .connectEstablishedCallBack

/-- Nothing waits to be sent: a message may go to the socket at once. -/
def direct : Bool := !c.channel_.isWriteEvent && c.outputBuffer_.getReadableLen == 0

/-- The end of `sendInLoop`: what remains goes to the output buffer. -/
def appendOutput (remain : Str) : Result Connection := do
  let out ← c.outputBuffer_.append remain
  let c := { c with outputBuffer_ := out }
  .ok (if !c.channel_.isWriteEvent then { c with channel_ := c.channel_.enableWriteEvent } else c)

/-- `written` is what `write` returns if it is called: a count, or `none` for -1. -/
def sendInLoop (msg : Str) (written : Option ℕ) : Result Connection :=
  let c := c.emit (.handed msg)
  let (c, writenLen, errorFlag) :=
    if c.direct then
      match written with
      | some n =>
        let c := c.emit (.wrote (msg.take n))
        if msg.length ≤ n ∧ c.messageSendCallBack_ then
          (c.emit .messageSendCallBack, msg.length, false)
        else (c, min n msg.length, false)
      | none => (c, 0, true)
    else (c, 0, false)
  if !errorFlag && writenLen < msg.length then c.appendOutput (msg.drop writenLen) else .ok c

def shutDownInLoop : Connection :=
  if !c.channel_.isWriteEvent then c.emit .shutdownWrite else c

def handleClose : Connection :=
  { c with state_ := .Disconnected, channel_ := c.channel_.disableAll }.emit .connectCloseCallBack

def handleError : Connection := c

def forceCloseInLoop : Connection :=
  if c.state_ = .Connected ∨ c.state_ = .Disconnecting then c.handleClose else c

def handleRead (results : List ReadResult) : Result Connection := do
  let (input, receiveSum) ← c.inputBuffer_.readFd results
  let receiveSum := toInt receiveSum
  let c := { c with inputBuffer_ := input }
  if 0 < receiveSum ∧ c.messageReceivedCallBack_ then .ok (c.emit .messageReceivedCallBack)
  else if receiveSum = 0 then .ok c.handleClose
  else .ok c.handleError

/-- What `handleWrite` does once the whole output buffer is written. -/
def writeDone : Connection :=
  let c := { c with channel_ := c.channel_.disableWriteEvent }
  let c := if c.messageSendCallBack_ then c.queueInLoop .messageSendCallBack else c
  if c.state_ = .Disconnecting then c.shutDownInLoop else c

/-- `handleWrite` once it knows what the write returned. -/
def haveWritten (sendSum : ℤ) : Connection :=
  if 0 < sendSum then
    let c := { c with outputBuffer_ := c.outputBuffer_.haveReadForLen sendSum }
    if c.outputBuffer_.getReadableLen = 0 then c.writeDone else c
  else c

def handleWrite (written : Option ℕ) : Connection :=
  let (sendSum, bytes) := c.outputBuffer_.writeFd written
  (c.emit (.wrote bytes)).haveWritten sendSum

/-- One callback of the channel. -/
def runCallBack (results : List ReadResult) (written : Option ℕ) :
    Channel.CallBack → Result Connection
  | .close => .ok c.handleClose
  | .error => .ok c.handleError
  | .read => c.handleRead results
  | .write => .ok (c.handleWrite written)

def runTask (written : Option ℕ) : Task → Result Connection
  | .sendInLoop msg => c.sendInLoop msg written
  | .shutDownInLoop => .ok c.shutDownInLoop
  | .forceCloseInLoop => .ok c.forceCloseInLoop
  | .messageSendCallBack => .ok (c.emit .messageSendCallBack)

/-- `EventLoop::runInLoop`, called from the loop thread or from another one. -/
def runInLoop (inLoop : Bool) (written : Option ℕ) (t : Task) : Result Connection :=
  if inLoop then c.runTask written t else .ok (c.queueInLoop t)

def send (inLoop : Bool) (msg : Str) (written : Option ℕ) : Result Connection :=
  if c.state_ = .Connected then c.runInLoop inLoop written (.sendInLoop msg) else .ok c

def shutDown (inLoop : Bool) : Result Connection :=
  if c.state_ = .Connected then
    { c with state_ := .Disconnecting }.runInLoop inLoop none .shutDownInLoop
  else .ok c

def forceClose (inLoop : Bool) : Result Connection :=
  if c.state_ = .Connected ∨ c.state_ = .Disconnecting then
    c.runInLoop inLoop none .forceCloseInLoop
  else .ok c

/-! ### Sending -/

/-- The bytes of a message that `sendInLoop` gets the socket to accept. -/
def taken (msg : Str) : Option ℕ → Str
  | some n => if c.direct then msg.take n else []
  | none => []

/-- The bytes of a message that `sendInLoop` leaves in the output buffer. -/
def kept (msg : Str) : Option ℕ → Str
  | some n => if c.direct then msg.drop n else msg
  | none => if c.direct then [] else msg

/-- The channel after bytes were left in the output buffer. -/
def watching (left : Str) : Channel :=
  if left ≠ [] ∧ c.channel_.isWriteEvent = false then c.channel_.enableWriteEvent else c.channel_

variable {c}

@[simp] lemma messages_append (l l' : List Effect) :
    messages (l ++ l') = messages l ++ messages l' :=
  List.filterMap_append

@[simp] lemma accepted_append (l l' : List Effect) :
    accepted (l ++ l') = accepted l ++ accepted l' :=
  List.flatMap_append

@[simp] lemma messages_nil : messages [] = [] := rfl
@[simp] lemma accepted_nil : accepted [] = [] := rfl

@[simp] lemma messages_cons (e : Effect) (l : List Effect) :
    messages (e :: l) = e.message.toList ++ messages l := by
  cases e <;> rfl

@[simp] lemma accepted_cons (e : Effect) (l : List Effect) :
    accepted (e :: l) = e.acceptedBytes ++ accepted l := rfl

/-- What goes to the socket directly goes when nothing waits. -/
lemma readable_of_direct (h : c.outputBuffer_.Valid) (hd : c.direct = true) :
    c.outputBuffer_.readable = [] := by
  simp only [direct, Bool.and_eq_true, beq_iff_eq] at hd
  exact List.eq_nil_of_length_eq_zero (h.length_readable.trans hd.2)

lemma appendOutput_spec (h : c.outputBuffer_.Valid) {remain : Str} (hne : remain ≠ []) :
    ∃ out, c.appendOutput remain =
        .ok { c with outputBuffer_ := out, channel_ := c.watching remain } ∧
      out.Valid ∧ out.readable = c.outputBuffer_.readable ++ remain := by
  obtain ⟨out, happ, hv, hr⟩ := h.append remain
  refine ⟨out, ?_, hv, hr⟩
  cases hw : c.channel_.isWriteEvent <;> simp [appendOutput, happ, watching, hne, hw]

/-- **All that `sendInLoop` does**: the message is split between the socket and the output
buffer, and what is left there is watched. -/
theorem sendInLoop_spec (h : c.outputBuffer_.Valid) (msg : Str) (written : Option ℕ) :
    ∃ out log, c.sendInLoop msg written = .ok { c with
        outputBuffer_ := out, channel_ := c.watching (c.kept msg written), log := c.log ++ log } ∧
      out.Valid ∧ out.readable = c.outputBuffer_.readable ++ c.kept msg written ∧
      messages log = [msg] ∧ accepted log = c.taken msg written ∧
      .shutdownWrite ∉ log ∧ .connectCloseCallBack ∉ log := by
  have hemit : ∀ e, (c.emit e).direct = c.direct := fun _ => rfl
  unfold sendInLoop
  simp only [hemit]
  by_cases hd : c.direct
  · rw [if_pos hd]
    cases written with
    | none =>
      refine ⟨c.outputBuffer_, [.handed msg], ?_, h, ?_, ?_, ?_, by simp, by simp⟩ <;>
        simp [kept, taken, hd, watching, emit]
    | some n =>
      have htaken : c.taken msg (some n) = msg.take n := by simp [taken, hd]
      have hkept : c.kept msg (some n) = msg.drop n := by simp [kept, hd]
      rw [htaken, hkept]
      by_cases hn : msg.length ≤ n
      · -- the socket took it all
        have hnil : msg.drop n = [] := List.drop_eq_nil_of_le hn
        rw [hnil]
        cases hcb : c.messageSendCallBack_
        · refine ⟨c.outputBuffer_, [.handed msg, .wrote (msg.take n)], ?_, h, ?_⟩ <;>
            simp [watching, emit, hcb, hn]
        · refine ⟨c.outputBuffer_, [.handed msg, .wrote (msg.take n), .messageSendCallBack], ?_,
            h, ?_⟩ <;> simp [watching, emit, hcb, hn]
      · have hne : msg.drop n ≠ [] := by simpa using hn
        obtain ⟨out, happ, hv, hr⟩ :=
          appendOutput_spec (c := (c.emit (.handed msg)).emit (.wrote (msg.take n))) h hne
        refine ⟨out, [.handed msg, .wrote (msg.take n)], ?_, hv, hr, by simp⟩
        have hlt : n < msg.length := by omega
        simp only [hn, false_and, if_false, hlt.le, min_eq_left, hlt, Bool.not_false, decide_true,
          Bool.and_true, if_true, happ]
        simp [emit, watching]
  · rw [if_neg hd]
    have htaken : c.taken msg written = [] := by cases written <;> simp [taken, hd]
    have hkept : c.kept msg written = msg := by cases written <;> simp [kept, hd]
    rw [htaken, hkept]
    by_cases hnil : msg = []
    · subst hnil
      refine ⟨c.outputBuffer_, [.handed []], ?_, h, ?_⟩ <;> simp [watching, emit]
    · obtain ⟨out, happ, hv, hr⟩ := appendOutput_spec (c := c.emit (.handed msg)) h hnil
      have hpos : 0 < msg.length := List.length_pos_iff.mpr hnil
      refine ⟨out, [.handed msg], ?_, hv, hr, by simp⟩
      rw [if_pos (by simpa using hpos)]
      exact happ

lemma isWriteEvent_watching (left : Str) :
    (c.watching left).isWriteEvent = true ↔ c.channel_.isWriteEvent = true ∨ left ≠ [] := by
  unfold watching
  split_ifs with h
  · simp [h.1]
  · cases hw : c.channel_.isWriteEvent <;> simp_all

/-! ### Draining -/

/-- The bytes of the output buffer that `handleWrite` gets the socket to accept. -/
def gone (c : Connection) (written : Option ℕ) : Str := (c.outputBuffer_.writeFd written).2

/-- How many bytes it then drops from the output buffer. -/
def dropped (c : Connection) (written : Option ℕ) : ℕ := (c.outputBuffer_.writeFd written).1.toNat

/-- `handleWrite` empties an output buffer that was not empty. -/
def Drains (c : Connection) (written : Option ℕ) : Prop :=
  c.outputBuffer_.readable ≠ [] ∧ c.dropped written = c.outputBuffer_.readable.length

lemma gone_le (written : Option ℕ) :
    (c.gone written).length ≤ c.outputBuffer_.readable.length := by
  cases written with
  | none => exact Nat.zero_le _
  | some n => exact List.length_take_le' ..

lemma dropped_le (written : Option ℕ) : c.dropped written ≤ (c.gone written).length := by
  cases written with
  | none => exact Nat.zero_le _
  | some n =>
    have := toInt_le (c.outputBuffer_.readable.take n).length
    simp only [dropped, gone, Buffer.writeFd]
    omega

lemma dropped_eq {written : Option ℕ} (h : (c.gone written).length ≤ INT_MAX) :
    c.dropped written = (c.gone written).length := by
  cases written with
  | none => rfl
  | some n => simp only [dropped, gone, Buffer.writeFd] at h ⊢; rw [toInt_of_le h]; rfl

/-- Of a count that `int` cannot hold less is dropped than was accepted. -/
lemma dropped_lt {written : Option ℕ} (h : INT_MAX < (c.gone written).length) :
    c.dropped written < (c.gone written).length := by
  cases written with
  | none => simp [gone, Buffer.writeFd] at h
  | some n =>
    simp only [dropped, gone, Buffer.writeFd] at h ⊢
    have := toInt_lt_of_gt h
    omega

/-- What is accepted and what is left are the output buffer, if `int` holds the count. -/
lemma gone_append_drop {written : Option ℕ} (h : (c.gone written).length ≤ INT_MAX) :
    c.gone written ++ c.outputBuffer_.readable.drop (c.dropped written) =
      c.outputBuffer_.readable := by
  rw [dropped_eq h]
  cases written with
  | none => rfl
  | some n =>
    change c.outputBuffer_.readable.take n ++
      c.outputBuffer_.readable.drop (c.outputBuffer_.readable.take n).length = _
    rcases le_total n c.outputBuffer_.readable.length with hn | hn
    · rw [List.length_take_of_le hn, List.take_append_drop]
    · rw [List.take_of_length_le hn, List.drop_length, List.append_nil]

lemma writeDone_eq : c.writeDone = { c with
    channel_ := c.channel_.disableWriteEvent
    pendingFunctions_ :=
      c.pendingFunctions_ ++ if c.messageSendCallBack_ then [.messageSendCallBack] else []
    log := c.log ++ if c.state_ = .Disconnecting then [.shutdownWrite] else [] } := by
  unfold writeDone shutDownInLoop
  cases c.messageSendCallBack_ <;> by_cases hst : c.state_ = .Disconnecting <;>
    simp [queueInLoop, emit, hst]

/-- **All that `handleWrite` does**: it drops bytes from the output buffer, and when that
empties it, the channel is no longer watched for writing and a shutdown under way goes on. -/
theorem handleWrite_spec (h : c.outputBuffer_.Valid) (written : Option ℕ) :
    ∃ out : Buffer, out.Valid ∧
      out.readable = c.outputBuffer_.readable.drop (c.dropped written) ∧
      (c.Drains written → c.handleWrite written = { c with
        outputBuffer_ := out
        channel_ := c.channel_.disableWriteEvent
        pendingFunctions_ :=
          c.pendingFunctions_ ++ if c.messageSendCallBack_ then [.messageSendCallBack] else []
        log := c.log ++ [.wrote (c.gone written)] ++
          if c.state_ = .Disconnecting then [.shutdownWrite] else [] }) ∧
      (¬ c.Drains written → c.handleWrite written = { c with
        outputBuffer_ := out, log := c.log ++ [.wrote (c.gone written)] }) := by
  have hle := (dropped_le (c := c) written).trans (gone_le written)
  obtain ⟨hv, hr⟩ := h.haveReadForLen hle
  have hlen := hv.length_readable
  rw [hr, List.length_drop] at hlen
  have hcast : 0 < c.dropped written →
      (c.outputBuffer_.writeFd written).1 = (c.dropped written : ℤ) := by
    unfold dropped; omega
  have hfn : c.handleWrite written =
      (c.emit (.wrote (c.gone written))).haveWritten (c.outputBuffer_.writeFd written).1 := rfl
  refine ⟨_, hv, hr, fun hd => ?_, fun hd => ?_⟩
  · have hpos : 0 < c.dropped written := by
      rw [hd.2]; exact List.length_pos_iff.mpr hd.1
    rw [hfn, hcast hpos]
    simp only [haveWritten]
    rw [if_pos (by exact_mod_cast hpos), if_pos (by have := hd.2; simp only [emit]; omega),
      writeDone_eq]
    rfl
  · rcases Nat.eq_zero_or_pos (c.dropped written) with hz | hpos
    · have hsame : c.outputBuffer_.haveReadForLen ((0 : ℕ) : ℤ) = c.outputBuffer_ := by
        rw [Buffer.haveReadForLen, szAdd_natCast, Nat.add_zero]
      have hk : ¬ 0 < (c.outputBuffer_.writeFd written).1 := by
        unfold dropped at hz; omega
      rw [hfn, haveWritten, if_neg hk, hz, hsame]
      rfl
    · have hne : c.dropped written ≠ c.outputBuffer_.readable.length := by
        intro heq
        exact hd ⟨List.length_pos_iff.mp (by omega), heq⟩
      rw [hfn, hcast hpos]
      simp only [haveWritten]
      rw [if_pos (by exact_mod_cast hpos), if_neg (by simp only [emit]; omega)]
      rfl

/-! ### Calls that always go through -/

lemma shutDownInLoop_outputBuffer : c.shutDownInLoop.outputBuffer_ = c.outputBuffer_ := by
  unfold shutDownInLoop
  split_ifs <;> rfl

lemma handleWrite_valid (h : c.outputBuffer_.Valid) (written : Option ℕ) :
    (c.handleWrite written).outputBuffer_.Valid := by
  obtain ⟨out, hv, -, hdrain, hpart⟩ := handleWrite_spec h written
  by_cases hd : c.Drains written
  · rw [hdrain hd]; exact hv
  · rw [hpart hd]; exact hv

lemma runTask_total (h : c.outputBuffer_.Valid) (written : Option ℕ) (t : Task) :
    ∃ c', c.runTask written t = .ok c' ∧ c'.outputBuffer_.Valid := by
  cases t with
  | sendInLoop msg =>
    obtain ⟨out, log, heq, hv, -⟩ := sendInLoop_spec h msg written
    exact ⟨_, heq, hv⟩
  | shutDownInLoop => exact ⟨_, rfl, by rwa [shutDownInLoop_outputBuffer]⟩
  | forceCloseInLoop =>
    refine ⟨_, rfl, ?_⟩
    unfold forceCloseInLoop
    split_ifs <;> exact h
  | messageSendCallBack => exact ⟨_, rfl, h⟩

lemma runInLoop_total (h : c.outputBuffer_.Valid) (inLoop : Bool) (written : Option ℕ)
    (t : Task) : ∃ c', c.runInLoop inLoop written t = .ok c' ∧ c'.outputBuffer_.Valid := by
  cases inLoop with
  | true => exact runTask_total h written t
  | false => exact ⟨_, rfl, h⟩

lemma send_total (h : c.outputBuffer_.Valid) (inLoop : Bool) (msg : Str) (written : Option ℕ) :
    ∃ c', c.send inLoop msg written = .ok c' ∧ c'.outputBuffer_.Valid := by
  unfold send
  split_ifs
  · exact runInLoop_total h ..
  · exact ⟨c, rfl, h⟩

lemma shutDown_total (h : c.outputBuffer_.Valid) (inLoop : Bool) :
    ∃ c', c.shutDown inLoop = .ok c' ∧ c'.outputBuffer_.Valid := by
  unfold shutDown
  split_ifs
  · exact runInLoop_total (c := { c with state_ := .Disconnecting }) h ..
  · exact ⟨c, rfl, h⟩

end Connection

end MuduoZ
