import MuduoZ.Lib.Run
import MuduoZ.TcpServer

/-!
Whether the table of connections holds the connections that are open.

It does as long as no two of these have the same name. The name is cut to 63 characters, and the
number at its end with it.
-/

namespace MuduoZ.ConnectionTable

open Runs TcpServer

/-- The server, and the connections that were accepted and not closed yet. -/
structure Sys where
  server : TcpServer
  opened : List ConnectionPtr

inductive Action
  | newConnection
  | connectionCloseInLoop (connection : ConnectionPtr)

def start (port : ℤ) (name : Str) : Sys := ⟨.new port name, []⟩

def step (s : Sys) : Action → Result Sys
  | .newConnection => .ok ⟨s.server.newConnection, s.opened ++ [s.server.names.length]⟩
  | .connectionCloseInLoop c => do
    .ok ⟨← s.server.connectionCloseInLoop c, s.opened.filter (· ≠ c)⟩

/-- Open connections have different names, and the table holds just these connections. -/
structure Faithful (s : Sys) : Prop where
  distinct : (s.opened.map s.server.getName).Nodup
  holds : ∀ name c, SortedMap.get? name s.server.connectionMap_ = some c ↔
    c ∈ s.opened ∧ s.server.getName c = some name

/-- The number of a new connection is not printed like that of an open one, nor is the number of a
connection that is closed once more. -/
def Apart (s : Sys) : Action → Prop
  | .newConnection => ∀ d ∈ s.opened, ¬ Alike s.server.room s.server.names.length d
  | .connectionCloseInLoop c => c ∈ s.opened ∨ ∀ d ∈ s.opened, ¬ Alike s.server.room c d

/-! ### The run -/

structure Inv (s : Sys) : Prop where
  id : s.server.connectionId_ = s.server.names.length % 2 ^ 64
  names : ∀ c < s.server.names.length, s.server.getName c = some (s.server.nameOf c)
  made : ∀ c ∈ s.opened, c < s.server.names.length
  faithful : Faithful s

variable {s u : Sys} {c d : ConnectionPtr}

lemma start_inv (port : ℤ) (name : Str) : Inv (start port name) :=
  ⟨rfl, fun c hc => absurd hc (Nat.not_lt_zero c), by simp [start],
    ⟨List.nodup_nil, fun name c => by simp [start, TcpServer.new, SortedMap.get?]⟩⟩

lemma Inv.getName_eq_iff (h : Inv s) (hc : c < s.server.names.length)
    (hd : d < s.server.names.length) :
    s.server.getName c = s.server.getName d ↔ Alike s.server.room c d := by
  rw [h.names c hc, h.names d hd, Option.some.injEq, nameOf_eq_iff]

/-- The names after a connection was accepted. -/
lemma Inv.getName_new (h : Inv s) :
    (s.server.newConnection.getName s.server.names.length =
      some (s.server.nameOf s.server.names.length)) ∧
    ∀ d < s.server.names.length, s.server.newConnection.getName d = s.server.getName d := by
  constructor
  · rw [getName, newConnection, nextName_eq h.id]
    simp
  · intro d hd
    rw [getName, getName, newConnection]
    exact List.getElem?_append_left hd

lemma map_getName_new (h : Inv s) :
    (s.opened ++ [s.server.names.length]).map s.server.newConnection.getName =
      s.opened.map s.server.getName ++ [some (s.server.nameOf s.server.names.length)] := by
  obtain ⟨hself, hother⟩ := h.getName_new
  rw [List.map_append, List.map_singleton, hself]
  congr 1
  exact List.map_congr_left fun d hd => hother d (h.made d hd)

/-- An open connection has the name of the next one. -/
lemma Inv.next_mem_iff (h : Inv s) :
    some (s.server.nameOf s.server.names.length) ∈ s.opened.map s.server.getName ↔
      ∃ d ∈ s.opened, Alike s.server.room s.server.names.length d := by
  rw [List.mem_map]
  refine exists_congr fun d => and_congr_right fun hd => ?_
  rw [h.names d (h.made d hd), Option.some.injEq, eq_comm, nameOf_eq_iff]

lemma newConnection_inv (h : Inv s)
    (ha : ∀ d ∈ s.opened, ¬ Alike s.server.room s.server.names.length d) :
    Inv ⟨s.server.newConnection, s.opened ++ [s.server.names.length]⟩ := by
  obtain ⟨hself, hother⟩ := h.getName_new
  have hnew : some (s.server.nameOf s.server.names.length) ∉ s.opened.map s.server.getName := by
    rw [h.next_mem_iff]
    rintro ⟨d, hd, hal⟩
    exact ha d hd hal
  have hlen : s.server.newConnection.names.length = s.server.names.length + 1 := by
    simp [newConnection]
  refine ⟨?_, fun d hd => ?_, fun d hd => ?_, ?_, fun name d => ?_⟩
  · dsimp only
    rw [hlen, newConnection, h.id, Nat.mod_add_mod]
  · rw [hlen] at hd
    rcases Nat.lt_succ_iff_lt_or_eq.mp hd with hd | rfl
    · exact (hother d hd).trans (h.names d hd)
    · exact hself
  · rw [hlen]
    rcases List.mem_append.mp hd with hd | hd
    · exact Nat.lt_succ_of_lt (h.made d hd)
    · rw [List.mem_singleton.mp hd]; exact Nat.lt_succ_self _
  · rw [map_getName_new h]
    exact (List.nodup_append_comm.mpr (List.nodup_cons.mpr ⟨hnew, h.faithful.distinct⟩))
  · have hmap : s.server.newConnection.connectionMap_ = SortedMap.set
        (s.server.nameOf s.server.names.length) s.server.names.length s.server.connectionMap_ := by
      rw [newConnection, nextName_eq h.id]
    dsimp only
    rw [hmap, SortedMap.get?_set, List.mem_append, List.mem_singleton]
    by_cases hname : name = s.server.nameOf s.server.names.length
    · subst hname
      rw [if_pos rfl, Option.some.injEq]
      constructor
      · rintro rfl
        exact ⟨.inr rfl, hself⟩
      · rintro ⟨hd | rfl, hn⟩
        · rw [hother d (h.made d hd)] at hn
          exact absurd (List.mem_map.mpr ⟨d, hd, hn⟩) hnew
        · rfl
    · rw [if_neg hname, h.faithful.holds]
      constructor
      · rintro ⟨hd, hn⟩
        exact ⟨.inl hd, (hother d (h.made d hd)).trans hn⟩
      · rintro ⟨hd | rfl, hn⟩
        · exact ⟨hd, (hother d (h.made d hd)).symm.trans hn⟩
        · exact absurd (Option.some.inj (hself.symm.trans hn)).symm hname

/-- What closing a connection does to the table. -/
lemma close_eq (h : step s (.connectionCloseInLoop c) = .ok u) : c < s.server.names.length ∧
    ∃ name, s.server.getName c = some name ∧
      u = ⟨{ s.server with connectionMap_ := SortedMap.erase name s.server.connectionMap_ },
        s.opened.filter (· ≠ c)⟩ := by
  obtain ⟨t, ht, h⟩ := bind_ok_iff.mp h
  obtain rfl := Except.ok.inj h
  unfold connectionCloseInLoop at ht
  split at ht
  · cases ht
  · rename_i name hname
    obtain rfl := Except.ok.inj ht
    exact ⟨(List.getElem?_eq_some_iff.mp hname).1, name, hname, rfl⟩

lemma close_inv (h : Inv s)
    (ha : c ∈ s.opened ∨ ∀ d ∈ s.opened, ¬ Alike s.server.room c d)
    (hs : step s (.connectionCloseInLoop c) = .ok u) : Inv u := by
  obtain ⟨hc, name, hname, rfl⟩ := close_eq hs
  have hsub : (s.opened.filter (· ≠ c)).Sublist s.opened := List.filter_sublist
  refine ⟨h.id, h.names, fun d hd => h.made d (hsub.subset hd),
    h.faithful.distinct.sublist (hsub.map _), fun name' d => ?_⟩
  change SortedMap.get? name' (SortedMap.erase name s.server.connectionMap_) = some d ↔
    d ∈ s.opened.filter (· ≠ c) ∧ s.server.getName d = some name'
  rw [SortedMap.get?_erase, List.mem_filter]
  by_cases hn : name' = name
  · subst hn
    -- no other open connection has the name
    rw [if_pos rfl]
    refine iff_of_false (by simp) ?_
    rintro ⟨⟨hd, hdc⟩, hdname⟩
    rcases ha with hopen | hapart
    · have h₁ := (h.faithful.holds name' d).mpr ⟨hd, hdname⟩
      have h₂ := (h.faithful.holds name' c).mpr ⟨hopen, hname⟩
      rw [h₁] at h₂
      exact of_decide_eq_true hdc (Option.some.inj h₂)
    · exact hapart d hd ((h.getName_eq_iff hc (h.made d hd)).mp (hname.trans hdname.symm))
  · rw [if_neg hn, h.faithful.holds]
    constructor
    · rintro ⟨hd, hdname⟩
      refine ⟨⟨hd, decide_eq_true ?_⟩, hdname⟩
      rintro rfl
      exact hn (Option.some.inj (hdname.symm.trans hname))
    · rintro ⟨⟨hd, -⟩, hdname⟩
      exact ⟨hd, hdname⟩

lemma step_inv (s : Sys) (a : Action) (u : Sys) (h : Inv s) (ha : Apart s a)
    (hs : step s a = .ok u) : Inv u := by
  cases a with
  | newConnection =>
    obtain rfl := Except.ok.inj hs
    exact newConnection_inv h ha
  | connectionCloseInLoop c => exact close_inv h ha hs

lemma step_broken (s : Sys) (a : Action) (u : Sys) (h : Inv s) (ha : ¬ Apart s a)
    (hs : step s a = .ok u) : ¬ Faithful u := by
  cases a with
  | newConnection =>
    obtain rfl := Except.ok.inj hs
    intro hf
    have hdistinct := hf.distinct
    rw [map_getName_new h] at hdistinct
    refine ha fun d hd hal => ?_
    have hmem := h.next_mem_iff.mpr ⟨d, hd, hal⟩
    exact (List.nodup_append.mp hdistinct).2.2 _ hmem _ (List.mem_singleton_self _) rfl
  | connectionCloseInLoop c =>
    obtain ⟨hc, name, hname, rfl⟩ := close_eq hs
    intro hf
    refine ha (or_iff_not_imp_left.mpr fun hclosed d hd hal => ?_)
    have hdc : d ≠ c := by rintro rfl; exact hclosed hd
    have hdname : s.server.getName d = some name :=
      ((h.getName_eq_iff hc (h.made d hd)).mpr hal).symm.trans hname
    have hget := (hf.holds name d).mpr
      ⟨List.mem_filter.mpr ⟨hd, decide_eq_true hdc⟩, hdname⟩
    dsimp only at hget
    rw [SortedMap.get?_erase, if_pos rfl] at hget
    cases hget

/-- **The table is faithful exactly when no number is printed like that of an open connection**, for
every server and in every run of accepts and closes. -/
theorem faithful_iff (port : ℤ) (name : Str) (as : List Action) :
    Along step Faithful (start port name) as ↔ Each step Apart (start port name) as :=
  along_iff_each step_inv (fun _ => Inv.faithful) step_broken (start_inv port name)

/-! ### Short names -/

/-- A step keeps the room, and accepts one connection at most. -/
lemma step_server {a : Action} (hs : step s a = .ok u) : u.server.room = s.server.room ∧
    u.server.names.length ≤ s.server.names.length + 1 := by
  cases a with
  | newConnection =>
    obtain rfl := Except.ok.inj hs
    exact ⟨rfl, by simp [newConnection]⟩
  | connectionCloseInLoop c =>
    obtain ⟨-, name, -, rfl⟩ := close_eq hs
    exact ⟨rfl, Nat.le_succ _⟩

/-- Numbers that have room are apart until the counter turns over. -/
lemma apart_of_lt (h : Inv s) (hroom : 11 ≤ s.server.room) (hlen : s.server.names.length < 2 ^ 32)
    {a : Action} (hs : step s a = .ok u) : Apart s a := by
  have hne : ∀ c ≤ s.server.names.length, ∀ d ∈ s.opened, Alike s.server.room c d → c = d :=
    fun c hc d hd hal =>
      ((alike_iff hroom).mp hal).eq_of_lt_of_lt (by omega) ((h.made d hd).trans hlen)
  cases a with
  | newConnection => exact fun d hd hal => (h.made d hd).ne' (hne _ le_rfl d hd hal)
  | connectionCloseInLoop c =>
    obtain ⟨hc, -⟩ := close_eq hs
    by_cases hopen : c ∈ s.opened
    · exact .inl hopen
    · refine .inr fun d hd hal => ?_
      obtain rfl := hne c hc.le d hd hal
      exact hopen hd

lemma along_of_short {as : List Action} (h : Inv s) (hroom : 11 ≤ s.server.room)
    (hlen : s.server.names.length + as.length ≤ 2 ^ 32) : Along step Faithful s as := by
  induction as generalizing s with
  | nil => exact along_nil.mpr h.faithful
  | cons a as ih =>
    refine along_cons.mpr ⟨h.faithful, fun u hu => ?_⟩
    rw [List.length_cons] at hlen
    obtain ⟨hroom', hnames⟩ := step_server hu
    have hapart := apart_of_lt h hroom (by omega) hu
    exact ih (step_inv s a u h hapart hu) (hroom' ▸ hroom) (by omega)

/-- **With a short name the table is faithful** for the first 2 ^ 32 steps. -/
theorem faithful_of_short (port : ℤ) (name : Str) {as : List Action}
    (hroom : 11 ≤ (TcpServer.new port name).room) (hlen : as.length ≤ 2 ^ 32) :
    Along step Faithful (start port name) as :=
  along_of_short (start_inv port name) hroom (by simpa [start, TcpServer.new] using hlen)

/-! ### A long name -/

/-- A name that leaves no room for a number. -/
def longName : Str := List.replicate 63 65

/-- Of two connections of a server with a long name, the second takes the place of the first. -/
theorem replaced : ¬ Along step Faithful (start 80 longName) [.newConnection, .newConnection] := by
  intro h
  have hrun : (exec step (start 80 longName) [.newConnection, .newConnection]).toOption.map
      (fun u => u.opened.map u.server.getName) = some [some longName, some longName] := by
    decide +kernel
  obtain ⟨u, hu, hnames⟩ := exec_of_map hrun
  have hdistinct := (h.last hu).distinct
  rw [hnames] at hdistinct
  exact absurd hdistinct (by simp)

end MuduoZ.ConnectionTable
