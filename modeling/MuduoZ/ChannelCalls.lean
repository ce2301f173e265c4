import MuduoZ.Channel
import MuduoZ.Lib.Run

/-!
Calls on a new channel, and what each of them has the kernel do.

`updateChannel` adds the descriptor of a new channel without looking at its events. A first
call that disables events registers a descriptor that is to watch nothing.
-/

namespace MuduoZ.ChannelCalls

open Channel Runs

inductive Call
  | enableReadEvent | enableWriteEvent | disableReadEvent | disableWriteEvent | disableAll
  deriving DecidableEq, Repr

def Call.run (ch : Channel) : Call → Channel
  | .enableReadEvent => ch.enableReadEvent
  | .enableWriteEvent => ch.enableWriteEvent
  | .disableReadEvent => ch.disableReadEvent
  | .disableWriteEvent => ch.disableWriteEvent
  | .disableAll => ch.disableAll

/-- The events a call leaves of those that were watched. -/
def Call.event (event : Events) : Call → Events
  | .enableReadEvent => event ||| ReadEvent
  | .enableWriteEvent => event ||| WriteEvent
  | .disableReadEvent => event &&& ~~~ReadEvent
  | .disableWriteEvent => event &&& ~~~WriteEvent
  | .disableAll => NoneEvent

def Call.Enables (c : Call) : Prop := c = .enableReadEvent ∨ c = .enableWriteEvent

instance (c : Call) : Decidable c.Enables := inferInstanceAs (Decidable (_ ∨ _))

/-- The call of `epoll_ctl` that `updateChannel` makes. -/
def issued (ch : Channel) : Option CtlOp :=
  match ch.state_ with
  | .CNew => some .ADD
  | .CAdded => some (if ch.isNoEvent then .DEL else .MOD)
  | .CDeleted => if ch.isNoEvent then none else some .ADD

/-- A channel, and whether each `epoll_ctl` of its calls was a valid one. -/
structure Sys where
  ch : Channel
  valid : List Bool

def start : Sys := ⟨.new, []⟩

def step (s : Sys) (c : Call) : Result Sys :=
  let op := issued (s.ch.setEvent (c.event s.ch.event_))
  .ok ⟨c.run s.ch, s.valid ++ (op.map fun op =>
    (epoll_ctl op (c.event s.ch.event_) s.ch.interest).2).toList⟩

/-- Channel and kernel agree, and the kernel was asked for nothing that it has to refuse. -/
structure Agree (s : Sys) : Prop where
  registered : s.ch.interest.isSome ↔ s.ch.event_ ≠ NoneEvent
  mask : ∀ event, s.ch.interest = some event → event = s.ch.event_
  added : s.ch.state_ = .CAdded ↔ s.ch.interest.isSome
  valid : ∀ ok ∈ s.valid, ok = true

variable {ch : Channel} {s s' : Sys} {c : Call}

lemma run_eq : c.run ch = (ch.setEvent (c.event ch.event_)).updateChannel := by
  cases c <;> rfl

/-- A channel that agrees with the kernel asks for what can be done. -/
lemma valid_of_agrees (h : ch.Agrees) {event : Events} {op : CtlOp}
    (hop : issued (ch.setEvent event) = some op) : (epoll_ctl op event ch.interest).2 = true := by
  have hw := h.watched
  unfold issued at hop
  cases hst : ch.state_ with
  | CNew => exact absurd hst h.known
  | CAdded =>
    rw [if_neg (h.added.mp hst)] at hw
    rw [Channel.setEvent, hst] at hop
    obtain rfl := Option.some.inj hop
    rw [hw]
    split <;> rfl
  | CDeleted =>
    have hne : ch.state_ ≠ .CAdded := by rw [hst]; decide
    rw [if_pos (not_not.mp (mt h.added.mpr hne))] at hw
    rw [Channel.setEvent, hst] at hop
    dsimp only at hop
    split at hop
    · cases hop
    · obtain rfl := Option.some.inj hop
      rw [hw]; rfl

/-- After the first event is enabled. -/
structure Inv (s : Sys) : Prop where
  agrees : s.ch.Agrees
  valid : ∀ ok ∈ s.valid, ok = true

lemma Inv.agree (h : Inv s) : Agree s := by
  have hw := h.agrees.watched
  have hsome : s.ch.interest.isSome ↔ s.ch.event_ ≠ NoneEvent := by
    rw [hw]; split <;> simp [*]
  refine ⟨hsome, fun event he => ?_, h.agrees.added.trans hsome.symm, h.valid⟩
  rw [hw] at he
  split at he
  · cases he
  · exact (Option.some.inj he).symm

lemma step_inv (s : Sys) (c : Call) (s' : Sys) (h : Inv s) (hs : step s c = .ok s') : Inv s' := by
  obtain rfl := Except.ok.inj hs
  refine ⟨?_, fun ok hok => ?_⟩
  · rw [run_eq]; exact h.agrees.setEvent _
  · rcases List.mem_append.mp hok with hok | hok
    · exact h.valid ok hok
    · cases hop : issued (s.ch.setEvent (c.event s.ch.event_)) with
      | none => rw [hop] at hok; cases hok
      | some op =>
        rw [hop] at hok
        obtain rfl := List.mem_singleton.mp hok
        exact valid_of_agrees h.agrees hop

lemma start_agree : Agree start := by
  constructor <;> simp [start, Channel.new]

lemma first_enables (hc : c.Enables) (hs : step start c = .ok s) : Inv s := by
  obtain rfl := Except.ok.inj hs
  rcases hc with rfl | rfl
  · exact ⟨enableReadEvent_new, by decide⟩
  · exact ⟨by constructor <;> decide, by decide⟩

/-- The descriptor of a channel that watches nothing is registered. -/
lemma first_disables (hc : ¬ c.Enables) (hs : step start c = .ok s) : ¬ Agree s := by
  obtain rfl := Except.ok.inj hs
  intro h
  have hreg := h.registered
  revert hreg
  cases c
  · exact absurd (.inl rfl) hc
  · exact absurd (.inr rfl) hc
  all_goals decide

/-- **Channel and kernel agree after every call exactly when the first call enables an event.** -/
theorem agree_iff (calls : List Call) :
    Along step Agree start calls ↔ ∀ c, calls.head? = some c → c.Enables := by
  cases calls with
  | nil => exact ⟨fun _ _ h => absurd h (by simp), fun _ => along_nil.mpr start_agree⟩
  | cons c calls =>
    rw [along_cons]
    constructor
    · rintro ⟨-, h⟩ d hd
      obtain rfl := Option.some.inj hd
      by_contra hn
      exact first_disables hn rfl ((h _ rfl) [] calls _ rfl rfl)
    · intro h
      refine ⟨start_agree, fun s hs => ?_⟩
      have hnothing : Each step (fun _ _ => True) s calls :=
        each_of_forall (fun _ _ _ => trivial) s
      exact along_of_each (fun s c s' hi _ => step_inv s c s' hi) (fun _ => Inv.agree)
        (first_enables (h c rfl) hs) hnothing

/-- All events are disabled on a new channel. -/
theorem disabled_registered : ¬ Along step Agree start [.disableAll] := by
  intro h
  exact first_disables (c := .disableAll) (by decide) rfl (h.last rfl)

end MuduoZ.ChannelCalls
