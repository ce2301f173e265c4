import MuduoZ.Fault

/-!
A channel: the events watched on one descriptor, and what `epoll` has registered for it.

Every change of the watched events goes to the kernel at once. After the first event is
enabled the channel and the kernel agree.
-/

namespace MuduoZ

/-- The event bits of `poll` and `epoll`. -/
abbrev Events := BitVec 32

abbrev POLLIN : Events := 0x001
abbrev POLLPRI : Events := 0x002
abbrev POLLOUT : Events := 0x004
abbrev POLLERR : Events := 0x008
abbrev POLLHUP : Events := 0x010
abbrev POLLNVAL : Events := 0x020
abbrev POLLRDHUP : Events := 0x2000
abbrev EPOLLET : Events := 0x80000000

/-- Some of the bits are set: an `int` taken for a `bool`. -/
def has (events bits : Events) : Bool := events &&& bits != 0

lemma has_or (events : Events) {bits : Events} (h : bits ≠ 0) :
    has (events ||| bits) bits = true := by
  have hand : (events ||| bits) &&& bits = bits := by
    ext i
    simpa using Or.inr
  rw [has, hand]
  exact bne_iff_ne.mpr h

lemma has_and_not (events bits : Events) : has (events &&& ~~~bits) bits = false := by
  have hand : (events &&& ~~~bits) &&& bits = 0 := by ext i; simp
  rw [has, hand]
  rfl

namespace Channel

inductive State
  | CNew | CAdded | CDeleted
  deriving DecidableEq, Repr

/-- The callbacks of a channel. -/
inductive CallBack
  | close | error | read | write
  deriving DecidableEq, Repr

def NoneEvent : Events := 0
def ReadEvent : Events := POLLIN ||| POLLPRI ||| EPOLLET
def WriteEvent : Events := POLLOUT

end Channel

/-- `interest` is the entry the kernel holds for the descriptor. -/
structure Channel where
  event_ : Events
  state_ : Channel.State
  interest : Option Events
  deriving DecidableEq, Repr

inductive CtlOp
  | ADD | MOD | DEL
  deriving DecidableEq, Repr

/-- `epoll_ctl` on one descriptor, which fails on an entry that is there already or is not
there, and then changes nothing. -/
def epoll_ctl (op : CtlOp) (event : Events) (interest : Option Events) : Option Events × Bool :=
  match op, interest with
  | .ADD, none => (some event, true)
  | .MOD, some _ => (some event, true)
  | .DEL, some _ => (none, true)
  | _, e => (e, false)

namespace Channel

def new : Channel := ⟨NoneEvent, .CNew, none⟩

variable (ch : Channel)

def isNoEvent : Bool := ch.event_ == NoneEvent
def isReadEvent : Bool := has ch.event_ ReadEvent
def isWriteEvent : Bool := has ch.event_ WriteEvent

def ctl (op : CtlOp) : Channel := { ch with interest := (epoll_ctl op ch.event_ ch.interest).1 }

/-- `Epoller::updateChannel`. -/
def updateChannel : Channel :=
  match ch.state_ with
  | .CNew => { ch.ctl .ADD with state_ := .CAdded }
  | .CAdded => if ch.isNoEvent then { ch.ctl .DEL with state_ := .CDeleted } else ch.ctl .MOD
  | .CDeleted => if !ch.isNoEvent then { ch.ctl .ADD with state_ := .CAdded } else ch

def setEvent (event : Events) : Channel := { ch with event_ := event }

def disableAll : Channel := (ch.setEvent NoneEvent).updateChannel
def enableReadEvent : Channel := (ch.setEvent (ch.event_ ||| ReadEvent)).updateChannel
def enableWriteEvent : Channel := (ch.setEvent (ch.event_ ||| WriteEvent)).updateChannel
def disableReadEvent : Channel := (ch.setEvent (ch.event_ &&& ~~~ReadEvent)).updateChannel
def disableWriteEvent : Channel := (ch.setEvent (ch.event_ &&& ~~~WriteEvent)).updateChannel

/-- The callbacks `handleEventWithoutGuard` runs for the active events, in its order. -/
def callBacks (activeEvent : Events) : List CallBack :=
  (if has activeEvent POLLHUP && !has activeEvent POLLIN then [.close] else []) ++
  (if has activeEvent (POLLERR ||| POLLNVAL) then [.error] else []) ++
  (if has activeEvent (POLLIN ||| POLLPRI ||| POLLRDHUP) then [.read] else []) ++
  (if has activeEvent POLLOUT then [.write] else [])

/-- The channel has been registered, and the kernel watches the events it asks for. -/
structure Agrees : Prop where
  known : ch.state_ ≠ .CNew
  added : ch.state_ = .CAdded ↔ ch.event_ ≠ NoneEvent
  watched : ch.interest = if ch.event_ = NoneEvent then none else some ch.event_

variable {ch}

@[simp] lemma updateChannel_event : ch.updateChannel.event_ = ch.event_ := by
  unfold updateChannel ctl
  cases ch.state_ <;> dsimp only <;> split <;> rfl

@[simp] lemma disableAll_event : ch.disableAll.event_ = NoneEvent := updateChannel_event

lemma isNoEvent_iff : ch.isNoEvent = true ↔ ch.event_ = NoneEvent := beq_iff_eq

/-- **Changing the events keeps the agreement.** -/
theorem Agrees.setEvent (h : ch.Agrees) (event : Events) :
    (ch.setEvent event).updateChannel.Agrees := by
  obtain ⟨hk, ha, hw⟩ := h
  unfold updateChannel ctl
  cases hst : ch.state_ with
  | CNew => exact absurd hst hk
  | CAdded =>
    rw [if_neg (ha.mp hst)] at hw
    by_cases he : event = NoneEvent <;> constructor <;>
      simp [Channel.setEvent, hst, isNoEvent_iff, he, hw, epoll_ctl]
  | CDeleted =>
    have he0 : ch.event_ = NoneEvent := by
      by_contra hne
      rw [ha.mpr hne] at hst; cases hst
    rw [if_pos he0] at hw
    by_cases he : event = NoneEvent <;> constructor <;>
      simp [Channel.setEvent, hst, ← Bool.not_eq_true, isNoEvent_iff, he, hw, epoll_ctl]

lemma enableReadEvent_new : Channel.new.enableReadEvent.Agrees := by
  constructor <;> decide

lemma Agrees.interest_none (h : ch.Agrees) (he : ch.event_ = NoneEvent) : ch.interest = none := by
  rw [h.watched, if_pos he]

@[simp] lemma isWriteEvent_enableWriteEvent : ch.enableWriteEvent.isWriteEvent = true := by
  rw [isWriteEvent, enableWriteEvent, updateChannel_event]
  exact has_or _ (by decide)

@[simp] lemma isWriteEvent_disableWriteEvent : ch.disableWriteEvent.isWriteEvent = false := by
  rw [isWriteEvent, disableWriteEvent, updateChannel_event]
  exact has_and_not _ _

end Channel

end MuduoZ
