import Mathlib.Data.Set.Function
import Mathlib.Order.Interval.Set.Defs
import ShaderLoom.Proofs.Symbols

/-! Symbol tables over time. Names are registered, fresh ones are asked for and tables are copied,
in any order. In each table that exists then, symbols and names correspond, and what a table once
said of a symbol or of a name it goes on to say, as its copies do. -/
namespace ShaderLoom.SymbolTable

variable {t t' : SymbolTable}

theorem get_of_names {s : Symbol} {name : String} (h : t.Names s name) : t.get name = s :=
  (names_get h.mem).inj h

theorem get_of_not_mem {name : String} (h : name ∉ t.names.toList) : t.get name = 0 := by
  have hnone : t.names.toList.findIdx? (· == name) = none := by
    apply List.findIdx?_eq_none_iff.2
    intro x hx
    apply beq_false_of_ne
    rintro rfl
    exact h hx
  rw [get, hnone]

theorem get_ne_zero_iff {name : String} : t.get name ≠ 0 ↔ name ∈ t.names.toList := by
  constructor
  · intro h
    by_contra hmem
    exact h (get_of_not_mem hmem)
  · intro h
    exact (names_get h).1

theorem names_nameFor {s : Symbol} (h : s ∈ Set.Icc 1 t.size) : t.Names s (t.nameFor s) := by
  obtain ⟨hpos, hle⟩ := h
  have hlt : s - 1 < t.names.size := Nat.lt_of_lt_of_le (Nat.sub_lt hpos Nat.one_pos) hle
  have hnames : t.Names s t.names[s - 1] := ⟨Nat.ne_of_gt hpos, Array.getElem?_eq_getElem hlt⟩
  rwa [hnames.nameFor]

/-- Looking up and naming undo each other. -/
theorem invOn_get_nameFor (t : SymbolTable) :
    Set.InvOn t.get t.nameFor (Set.Icc 1 t.size) {name | t.get name ≠ 0} := by
  constructor
  · intro s hs
    exact get_of_names (names_nameFor hs)
  · intro name hname
    exact (names_get (get_ne_zero_iff.1 hname)).nameFor

theorem bijOn_nameFor (t : SymbolTable) :
    Set.BijOn t.nameFor (Set.Icc 1 t.size) {name | t.get name ≠ 0} := by
  apply t.invOn_get_nameFor.bijOn
  · intro s hs
    exact get_ne_zero_iff.2 (names_nameFor hs).mem
  · intro name hname
    exact (names_get (get_ne_zero_iff.1 hname)).le_size

/-! What a later table keeps of an earlier one -/

/-- The symbols of the first table are symbols of the second one, with the same names. -/
structure Keeps (t t' : SymbolTable) : Prop where
  size : t.size ≤ t'.size
  nameFor : ∀ s ∈ Set.Icc 1 t.size, t'.nameFor s = t.nameFor s
  get : ∀ name, t.get name ≠ 0 → t'.get name = t.get name

theorem Keeps.rfl : t.Keeps t :=
  ⟨Nat.le_refl _, fun _ _ => Eq.refl _, fun _ _ => Eq.refl _⟩

theorem Keeps.trans {t'' : SymbolTable} (h : t.Keeps t') (h' : t'.Keeps t'') : t.Keeps t'' where
  size := h.size.trans h'.size
  nameFor s hs := by rw [h'.nameFor s ⟨hs.1, hs.2.trans h.size⟩, h.nameFor s hs]
  get name hname := by
    have hsame := h.get name hname
    rw [h'.get name (hsame ▸ hname), hsame]

theorem keeps_of_append (h : ∃ more, t'.names = t.names ++ more) : t.Keeps t' := by
  constructor
  · obtain ⟨more, hmore⟩ := h
    simp [SymbolTable.size, hmore]
  · intro s hs
    exact ((names_nameFor hs).extend h).nameFor
  · intro name hname
    exact get_of_names ((names_get (get_ne_zero_iff.1 hname)).extend h)

/-- A registered name has the symbol that comes back, and other names have the ones that they
had. -/
structure Registers (t : SymbolTable) (name : String) (s : Symbol) (t' : SymbolTable) : Prop where
  mem : s ∈ Set.Icc 1 t'.size
  nameFor : t'.nameFor s = name
  get : t'.get name = s
  other : ∀ x, x ≠ name → t'.get x = t.get x
  known : t.get name ≠ 0 → s = t.get name ∧ t'.size = t.size
  new : t.get name = 0 → s = t.size + 1 ∧ t'.size = t.size + 1

theorem registers (t : SymbolTable) (name : String) :
    t.Registers name (t.register name).1 (t.register name).2 := by
  have hnames := names_of_register t name
  refine ⟨hnames.le_size, hnames.nameFor, get_of_names hnames, ?other, ?known, ?new⟩
  case other =>
    intro x hx
    by_cases hmem : x ∈ t.names.toList
    · exact (keeps_of_append (register_extends t name)).get x (get_ne_zero_iff.2 hmem)
    · rw [get_of_not_mem hmem]
      apply get_of_not_mem
      rw [names_register]
      split
      · exact hmem
      · simpa [hx] using hmem
  case known =>
    intro hname
    rw [register_of_mem (get_ne_zero_iff.1 hname)]
    exact ⟨rfl, rfl⟩
  case new =>
    intro hname
    have hmem : name ∉ t.names.toList := fun hmem => get_ne_zero_iff.2 hmem hname
    rw [register, dif_neg hmem]
    exact ⟨rfl, by simp [SymbolTable.size]⟩

/-- The search comes to the first free candidate, if it passes none on the way. -/
theorem freshName_least (t : SymbolTable) (hint : String) (n k : Nat) (hn : n + k = t.size)
    (hk : ∀ j < k, candidate hint j ∈ t.names.toList) :
    ∃ m, t.freshName hint n k = candidate hint m ∧ ∀ j < m, candidate hint j ∈ t.names.toList := by
  induction n generalizing k with
  | zero => exact ⟨k, rfl, hk⟩
  | succ n ih =>
    rw [freshName_succ]
    split
    · next hmem =>
      apply ih (k + 1) (by omega)
      intro j hj
      obtain hlt | rfl := Nat.lt_succ_iff_lt_or_eq.1 hj
      · exact hk j hlt
      · exact hmem
    · exact ⟨k, rfl, hk⟩

/-- A fresh symbol is a new one. Its name is the first candidate for the hint that no symbol has. -/
structure Freshens (t : SymbolTable) (hint : String) (s : Symbol) (t' : SymbolTable) : Prop where
  symbol : s = t.size + 1
  least : ∃ k, t'.nameFor s = candidate hint k ∧ t.get (candidate hint k) = 0 ∧
    ∀ j < k, t.get (candidate hint j) ≠ 0
  registers : t.Registers (t'.nameFor s) s t'

theorem freshens (t : SymbolTable) (hint : String) :
    t.Freshens (if hint = "" then "tint_symbol" else hint) (t.fresh hint).1 (t.fresh hint).2 := by
  have hhint : (if hint.isEmpty then defaultName else hint) = if hint = "" then
      "tint_symbol" else hint := by
    simp only [String.isEmpty_iff, defaultName]
  generalize (if hint = "" then "tint_symbol" else hint) = base at hhint ⊢
  have hfree : t.get (t.freshName base t.size 0) = 0 :=
    get_of_not_mem (t.freshName_not_mem base t.size 0 (Nat.add_zero _) fun j hj =>
      absurd hj (Nat.not_lt_zero j))
  obtain ⟨k, hk, hleast⟩ :=
    t.freshName_least base t.size 0 (Nat.add_zero _) fun j hj => absurd hj (Nat.not_lt_zero j)
  have hregisters := t.registers (t.freshName base t.size 0)
  rw [fresh, hhint]
  refine ⟨(hregisters.new hfree).1, ⟨k, ?_, ?_, ?_⟩, ?_⟩
  · rw [hregisters.nameFor, hk]
  · rw [← hk, hfree]
  · intro j hj
    exact get_ne_zero_iff.2 (hleast j hj)
  · rw [hregisters.nameFor]
    exact hregisters

/-! Tables that are made one from another -/

/-- What happens to tables. They are numbered in the order in which they come to be. -/
inductive Event where
  | register (i : Nat) (name : String)
  | fresh (i : Nat) (hint : String)
  | copy (i : Nat)

/-- The tables after an event. -/
def Event.apply (ts : List SymbolTable) : Event → List SymbolTable
  | .register i name => ts.modify i fun t => (t.register name).2
  | .fresh i hint => ts.modify i fun t => (t.fresh hint).2
  | .copy i => ts ++ ts[i]?.toList

/-- The tables after some events, starting from one that is empty. -/
def after (events : List Event) : List SymbolTable :=
  events.foldl Event.apply [.empty]

/-- The table that an event changes. -/
def Event.target : Event → Option Nat
  | .register i _ => some i
  | .fresh i _ => some i
  | .copy _ => none

theorem after_append (events more : List Event) :
    after (events ++ more) = more.foldl Event.apply (after events) :=
  List.foldl_append

theorem Event.keeps {ts : List SymbolTable} {i : Nat} (h : ts[i]? = some t) (e : Event) :
    ∃ t', (e.apply ts)[i]? = some t' ∧ t.Keeps t' ∧ (e.target ≠ some i → t' = t) := by
  have hmodify : ∀ (j : Nat) (f : SymbolTable → SymbolTable), t.Keeps (f t) →
      ∃ t', (ts.modify j f)[i]? = some t' ∧ t.Keeps t' ∧ (some j ≠ some i → t' = t) := by
    intro j f hf
    rw [List.getElem?_modify, h]
    by_cases hj : j = i
    · exact ⟨f t, by simp [hj], hf, fun hne => absurd (congrArg some hj) hne⟩
    · exact ⟨t, by simp [hj], .rfl, fun _ => rfl⟩
  cases e with
  | register j name => exact hmodify j _ (keeps_of_append (t.register_extends name))
  | fresh j hint => exact hmodify j _ (keeps_of_append (register_extends t _))
  | copy j =>
    have hlt := (List.getElem?_eq_some_iff.1 h).1
    refine ⟨t, ?_, .rfl, fun _ => rfl⟩
    rw [Event.apply, List.getElem?_append_left hlt, h]

theorem keeps_of_events {ts : List SymbolTable} {i : Nat} (h : ts[i]? = some t)
    (more : List Event) :
    ∃ t', (more.foldl Event.apply ts)[i]? = some t' ∧ t.Keeps t' ∧
      ((∀ e ∈ more, e.target ≠ some i) → t' = t) := by
  induction more generalizing ts t with
  | nil => exact ⟨t, h, .rfl, fun _ => rfl⟩
  | cons e more ih =>
    obtain ⟨u, hu, hkeeps, hsame⟩ := e.keeps h
    obtain ⟨t', ht', hkeeps', hsame'⟩ := ih hu
    refine ⟨t', ht', hkeeps.trans hkeeps', fun hall => ?_⟩
    rw [hsame' fun e he => hall e (List.mem_cons_of_mem _ he), hsame (hall e List.mem_cons_self)]

/-- However a table came to be: its symbols are the numbers from one to its size and correspond to
the names that it has symbols for. A name is registered under its symbol, a fresh name is the first
candidate that is free. Later events keep the symbols and their names, here and in a copy, and leave
alone a table that is not the one they are about. -/
theorem after_correspond {events : List Event} {i : Nat} {t : SymbolTable}
    (h : (after events)[i]? = some t) :
    (Set.BijOn t.nameFor (Set.Icc 1 t.size) {name | t.get name ≠ 0} ∧
      Set.InvOn t.get t.nameFor (Set.Icc 1 t.size) {name | t.get name ≠ 0}) ∧
    (∀ name, t.Registers name (t.register name).1 (t.register name).2) ∧
    (∀ hint, t.Freshens (if hint = "" then "tint_symbol" else hint) (t.fresh hint).1
      (t.fresh hint).2) ∧
    (∀ more, ∃ t', (after (events ++ more))[i]? = some t' ∧ t.Keeps t' ∧
      ((∀ e ∈ more, e.target ≠ some i) → t' = t)) ∧
    ∀ more, ∃ t', (after (events ++ .copy i :: more))[(after events).length]? = some t' ∧
      t.Keeps t' ∧
      ((∀ e ∈ more, e.target ≠ some (after events).length) → t' = t) := by
  refine ⟨⟨t.bijOn_nameFor, t.invOn_get_nameFor⟩, t.registers, t.freshens, ?later, ?copied⟩
  case later =>
    intro more
    rw [after_append]
    exact keeps_of_events h more
  case copied =>
    intro more
    rw [after_append, List.foldl_cons]
    apply keeps_of_events
    rw [Event.apply, h, Option.toList_some, List.getElem?_concat_length]

/-- A copy of a table that has the two names goes its own way. -/
theorem after_correspond_copied :
    ((after [.register 0 "tint_symbol", .register 0 "x_1", .fresh 0 "", .copy 0,
      .fresh 1 "x"])[1]?).isSome ∧
    ∃ t : SymbolTable, Set.BijOn t.nameFor (Set.Icc 1 4) {name | t.get name ≠ 0} ∧
      t.Freshens "x" (t.fresh "x").1 (t.fresh "x").2 ∧ t.nameFor 3 = "tint_symbol_1" ∧
      t.nameFor 4 = "x" := by
  have hsome : ((after [.register 0 "tint_symbol", .register 0 "x_1", .fresh 0 "", .copy 0,
      .fresh 1 "x"])[1]?).map SymbolTable.names =
      some #["tint_symbol", "x_1", "tint_symbol_1", "x"] := by
    decide +kernel
  cases ht : (after [.register 0 "tint_symbol", .register 0 "x_1", .fresh 0 "", .copy 0,
    .fresh 1 "x"])[1]? with
  | none => simp [ht] at hsome
  | some t =>
    have hnames : t.names = #["tint_symbol", "x_1", "tint_symbol_1", "x"] := by
      simpa [ht] using hsome
    have hsize : t.size = 4 := by rw [size, hnames]; rfl
    obtain ⟨⟨hbij, -⟩, -, hfresh, -⟩ := after_correspond ht
    refine ⟨rfl, t, hsize ▸ hbij, by simpa using hfresh "x", ?_, ?_⟩
    · simp [nameFor, hnames]
    · simp [nameFor, hnames]

end ShaderLoom.SymbolTable
