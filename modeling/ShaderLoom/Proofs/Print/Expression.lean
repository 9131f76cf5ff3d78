import Mathlib.Data.List.Perm.Subperm
import ShaderLoom.Proofs.Decimal.Shortest

/-! Texts of expressions. What is printed of an expression can be told from what stands behind it,
so that no two expressions print alike. An expression is a head with accesses behind it: the heads
are told apart by how they begin, the rest by induction on the size of the expression. -/
namespace ShaderLoom.Print

/-- Expressions without the nodes that they consist of in an arena. -/
inductive Expression where
  | ident (name : String)
  | int (value : Int) (suffix : IntSuffix)
  | float (value : Binary64)
  | bool (value : Bool)
  | binary (op : BinaryOp) (lhs rhs : Expression)
  | unary (op : UnaryOp) (operand : Expression)
  | call (target : String) (args : List Expression)
  | index (object subscript : Expression)
  | member (object : Expression) (name : String)

/-- Letters, digits and underscores of ASCII. -/
def isWordChar (c : Char) : Bool := c.isAlphanum || c == '_'

/-- A name that is neither a number nor a truth value. -/
structure IsName (n : String) : Prop where
  nonempty : n ≠ ""
  word : ∀ c ∈ n.toList, isWordChar c = true
  start : ∀ c ∈ n.toList.head?, c.isDigit = false
  other : n ≠ "true" ∧ n ≠ "false"

instance (n : String) : Decidable (IsName n) :=
  decidable_of_iff
    (n ≠ "" ∧ n.toList.all isWordChar = true ∧ n.toList.head?.all (!·.isDigit) = true ∧
      n ≠ "true" ∧ n ≠ "false")
    ⟨fun ⟨hn, hword, hstart, hother⟩ => ⟨hn, List.all_eq_true.1 hword, fun c hc => by
        rw [Option.mem_def.1 hc] at hstart
        simpa using hstart, hother⟩,
      fun h => ⟨h.nonempty, List.all_eq_true.2 h.word, by
        cases hc : n.toList.head? with
        | none => rfl
        | some c => simpa using h.start c hc, h.other⟩⟩

namespace Expression

/-- The names are names, the operators declared ones and the numbers finite. -/
inductive Plain : Expression → Prop
  | ident {n : String} (name : IsName n) : Plain (ident n)
  | int (v : Int) (s : IntSuffix) : Plain (int v s)
  | float {v : Binary64} (finite : Finite v) : Plain (float v)
  | bool (b : Bool) : Plain (bool b)
  | binary {op : BinaryOp} {l r : Expression} (declared : op ∈ BinaryOp.declared) (lhs : Plain l)
    (rhs : Plain r) :
    Plain (binary op l r)
  | unary {op : UnaryOp} {e : Expression} (declared : op ∈ UnaryOp.declared) (operand : Plain e) :
    Plain (unary op e)
  | call {n : String} {es : List Expression} (target : IsName n) (args : ∀ e ∈ es, Plain e) :
    Plain (call n es)
  | index {o i : Expression} (object : Plain o) (subscript : Plain i) : Plain (index o i)
  | member {o : Expression} {n : String} (object : Plain o) (name : IsName n) : Plain (member o n)

mutual

/-- The text of an expression with `rest` behind it. -/
def write : Expression → List Char → List Char
  | ident n, rest => n.toList ++ rest
  | int v s, rest => (toString v).toList ++ (s.text.toList ++ rest)
  | float v, rest => (floatText v).toList ++ rest
  | bool b, rest => (if b then "true" else "false").toList ++ rest
  | binary op l r, rest => '(' :: l.write (' ' :: (op.text.toList ++ ' ' :: r.write (')' :: rest)))
  | unary op e, rest => op.text.toList ++ '(' :: e.write (')' :: rest)
  | call n es, rest => n.toList ++ '(' :: writeArgs es (')' :: rest)
  | index o i, rest => o.write ('[' :: i.write (']' :: rest))
  | member o n, rest => o.write ('.' :: (n.toList ++ rest))

/-- The texts of arguments. -/
def writeArgs : List Expression → List Char → List Char
  | [], rest => rest
  | e :: es, rest => e.write (writeMore es rest)

/-- The texts of the arguments behind the first one. -/
def writeMore : List Expression → List Char → List Char
  | [], rest => rest
  | e :: es, rest => ',' :: ' ' :: e.write (writeMore es rest)

end

/-- The expressions that an expression is made of. The target of a call is one, too. -/
def parts : Expression → List Expression
  | binary _ l r => [l, r]
  | unary _ e => [e]
  | call n es => ident n :: es
  | index o i => [o, i]
  | member o _ => [o]
  | _ => []

theorem sizeOf_part {t e : Expression} (he : e ∈ t.parts) : sizeOf e < sizeOf t := by
  cases t with
  | binary op l r =>
    rcases List.mem_pair.1 he with rfl | rfl <;> simp only [binary.sizeOf_spec] <;> omega
  | unary op e' =>
    rw [List.mem_singleton.1 he, unary.sizeOf_spec]
    omega
  | call n es =>
    rcases List.mem_cons.1 he with rfl | he
    · have hes : 0 < sizeOf es := by
        cases es <;> simp only [List.nil.sizeOf_spec, List.cons.sizeOf_spec] <;> omega
      simp only [ident.sizeOf_spec, call.sizeOf_spec]
      omega
    · have := List.sizeOf_lt_of_mem he
      rw [call.sizeOf_spec]
      omega
  | index o i =>
    rcases List.mem_pair.1 he with rfl | rfl <;> simp only [index.sizeOf_spec] <;> omega
  | member o n =>
    rw [List.mem_singleton.1 he, member.sizeOf_spec]
    omega
  | _ => cases he

theorem Plain.part {t e : Expression} (hp : t.Plain) (he : e ∈ t.parts) : e.Plain := by
  cases hp with
  | binary _ lhs rhs => rcases List.mem_pair.1 he with rfl | rfl <;> assumption
  | unary _ operand => rwa [List.mem_singleton.1 he]
  | call target args =>
    rcases List.mem_cons.1 he with rfl | he
    · exact .ident target
    · exact args e he
  | index object subscript => rcases List.mem_pair.1 he with rfl | rfl <;> assumption
  | member object _ => rwa [List.mem_singleton.1 he]
  | _ => cases he

end Expression

open Expression
open Decimal (digitText run_unique)

/-- What may come behind an expression. -/
def Stops (rest : List Char) : Prop := ∀ c ∈ rest.head?, c = ' ' ∨ c = ',' ∨ c = ')' ∨ c = ']'

/-- What may come behind the head of an expression: an access, or what comes behind the
expression. -/
structure Follows (rest : List Char) : Prop where
  head : ∀ c ∈ rest.head?, isWordChar c = false ∧ c ≠ '('
  point : ∀ cs, rest = '.' :: cs → ∀ c ∈ cs.head?, c.isDigit = false

/-- The expression can be told from any other one, and from what comes behind it. -/
def Told (t : Expression) : Prop :=
  ∀ u r r', u.Plain → Stops r → Stops r' → t.write r = u.write r' → t = u ∧ r = r'

variable {x y rest : List Char}

theorem isWordChar_of_isDigit {c : Char} (h : c.isDigit = true) : isWordChar c = true := by
  simp [isWordChar, Char.isAlphanum, h]

theorem isDigit_eq_false {c : Char} (h : isWordChar c = false) : c.isDigit = false :=
  Bool.eq_false_iff.2 fun hd => Bool.eq_false_iff.1 h (isWordChar_of_isDigit hd)

theorem Stops.follows (h : Stops rest) : Follows rest where
  head c hc := by rcases h c hc with rfl | rfl | rfl | rfl <;> decide
  point cs hrest := by
    rcases h '.' (by rw [hrest]; rfl) with h | h | h | h <;> exact absurd h (by decide)

/-! How heads begin. -/

inductive Lead where
  | none
  | word
  | number
  | bracket
  | sign
  deriving DecidableEq

/-- What the first characters of a text begin. -/
def lead : List Char → Lead
  | [] => .none
  | c :: rest =>
    if c = '(' then .bracket
    else if c.isDigit then .number
    else if isWordChar c then .word
    else if c = '-' ∧ rest.head? ≠ some '(' then .number
    else if c = '-' ∨ c = '!' ∨ c = '~' then .sign
    else .none

theorem lead_word {w : List Char} (hne : w ≠ []) (hword : ∀ c ∈ w, isWordChar c = true)
    (hstart : ∀ c ∈ w.head?, c.isDigit = false) (rest : List Char) : lead (w ++ rest) = .word := by
  obtain ⟨c, w, rfl⟩ := List.exists_cons_of_ne_nil hne
  have hc := hword c List.mem_cons_self
  have hbracket : c ≠ '(' := by
    rintro rfl
    exact absurd hc (by decide)
  simp [lead, hbracket, hstart c rfl, hc]

theorem IsName.ne_nil {n : String} (h : IsName n) : n.toList ≠ [] :=
  fun hn => h.nonempty (String.toList_eq_nil_iff.1 hn)

theorem IsName.lead {n : String} (h : IsName n) (rest : List Char) :
    Print.lead (n.toList ++ rest) = .word :=
  lead_word h.ne_nil h.word h.start rest

theorem lead_number (negative : Bool) {cs : List Char} (hne : cs ≠ [])
    (hdigit : ∀ c ∈ cs.head?, c.isDigit = true) (rest : List Char) :
    lead (signText negative ++ (cs ++ rest)) = .number := by
  obtain ⟨c, cs, rfl⟩ := List.exists_cons_of_ne_nil hne
  have hc := hdigit c rfl
  have hbracket : c ≠ '(' := by
    rintro rfl
    exact absurd hc (by decide)
  cases negative
  · simp [signText, lead, hbracket, hc]
  · have hsign : isWordChar '-' = false := by decide
    simp [signText, lead, hbracket, hsign]

/-- The operators before an operand are characters of their own. -/
theorem unary_text {op : UnaryOp} (h : op ∈ UnaryOp.declared) :
    ∃ c, op.text.toList = [c] ∧ (c = '-' ∨ c = '!' ∨ c = '~') ∧
      UnaryOp.parse? (String.ofList [c]) = some op := by
  simp only [UnaryOp.declared, List.mem_cons, List.not_mem_nil, or_false] at h
  rcases h with rfl | rfl | rfl
  · exact ⟨'-', by decide, by decide, by decide⟩
  · exact ⟨'!', by decide, by decide, by decide⟩
  · exact ⟨'~', by decide, by decide, by decide⟩

/-- No operator between operands has a blank in it. -/
theorem binary_text {op : BinaryOp} (h : op ∈ BinaryOp.declared) :
    ∀ c ∈ op.text.toList, (c != ' ') = true := by
  have hall : BinaryOp.declared.all (fun op => op.text.toList.all (· != ' ')) = true := by decide
  exact List.all_eq_true.1 (List.all_eq_true.1 hall op h)

theorem binary_text_unique {op op' : BinaryOp} (h : op ∈ BinaryOp.declared)
    (h' : op' ∈ BinaryOp.declared)
    (heq : op.text.toList ++ ' ' :: x = op'.text.toList ++ ' ' :: y) : op = op' ∧ x = y := by
  have hblank : ∀ x : List Char, ∀ c ∈ (' ' :: x).head?, (c != ' ') = false := by
    rintro x c ⟨⟩
    decide
  obtain ⟨htext, hrest⟩ := run_unique (binary_text h) (binary_text h') (hblank x) (hblank y) heq
  have hparse := BinaryOp.parse?_text h
  rw [String.toList_inj.1 htext, BinaryOp.parse?_text h'] at hparse
  exact ⟨(Option.some.inj hparse).symm, (List.cons.inj hrest).2⟩

theorem int_text (v : Int) :
    (toString v).toList = signText (decide (v < 0)) ++ digitText v.natAbs := by
  rw [Int.toString_eq_repr, Int.repr_eq_if]
  split
  · next h =>
    rw [decide_eq_false (by omega), Nat.toList_repr, (by omega : v.toNat = v.natAbs)]
    rfl
  · next h =>
    rw [decide_eq_true (by omega), String.toList_append, Nat.toList_repr,
      (by omega : (-v).toNat = v.natAbs)]
    rfl

theorem digits_ne_nil (n : Nat) : digitText n ≠ [] := Nat.toDigits_ne_nil

theorem digits_head (n : Nat) : ∀ c ∈ (digitText n).head?, c.isDigit = true :=
  fun _ hc => Decimal.isDigit_of_mem_digitText (List.mem_of_mem_head? hc)

namespace Expression

/-- The head of an expression has no access at its end. -/
def IsHead : Expression → Prop
  | index _ _ => False
  | member _ _ => False
  | _ => True

def lead : Expression → Lead
  | ident _ => .word
  | bool _ => .word
  | call _ _ => .word
  | int _ _ => .number
  | float _ => .number
  | binary _ _ _ => .bracket
  | unary _ _ => .sign
  | index _ _ => .none
  | member _ _ => .none

theorem IsHead.lead_ne_none {h : Expression} (hh : h.IsHead) : h.lead ≠ .none := by
  cases h with
  | index _ _ => exact hh.elim
  | member _ _ => exact hh.elim
  | _ => nofun

theorem lead_write {h : Expression} (hh : h.IsHead) (hp : h.Plain) (rest : List Char) :
    Print.lead (h.write rest) = h.lead := by
  cases hp with
  | ident name => exact name.lead rest
  | int v s =>
    rw [write, int_text, List.append_assoc]
    exact lead_number _ (digits_ne_nil _) (digits_head _) _
  | float finite =>
    obtain ⟨m, e, hx⟩ := finite
    obtain ⟨cs, whole, part, htext, hpointed, -⟩ := exists_floatText hx
    rw [write, htext, List.append_assoc]
    exact lead_number _ hpointed.ne_nil hpointed.head rest
  | bool b =>
    cases b
    · exact lead_word (by decide) (List.all_eq_true.1 (by decide)) (by rintro c ⟨⟩; decide) rest
    · exact lead_word (by decide) (List.all_eq_true.1 (by decide)) (by rintro c ⟨⟩; decide) rest
  | binary declared lhs rhs => rfl
  | unary declared operand =>
    obtain ⟨c, hc, hsign, -⟩ := unary_text declared
    rw [write, hc]
    rcases hsign with rfl | rfl | rfl <;> rfl
  | call target args => exact target.lead _
  | index _ _ => exact hh.elim
  | member _ _ => exact hh.elim

end Expression

/-- The word that a head begins with. -/
def Expression.word : Expression → String
  | ident n => n
  | bool b => if b then "true" else "false"
  | call n _ => n
  | _ => ""

/-- What comes behind the word of a head. -/
def Expression.behind : Expression → List Char → List Char
  | call _ es, rest => '(' :: writeArgs es (')' :: rest)
  | _, rest => rest

theorem write_word {h : Expression} (hlead : h.lead = .word) (rest : List Char) :
    h.write rest = h.word.toList ++ h.behind rest := by
  cases h <;> first | rfl | cases hlead

theorem Expression.Plain.isWordChar_word {h : Expression} (hp : h.Plain) (hlead : h.lead = .word) :
    ∀ c ∈ h.word.toList, isWordChar c = true := by
  cases hp with
  | ident name => exact name.word
  | bool b => cases b <;> exact List.all_eq_true.1 (by decide)
  | call target _ => exact target.word
  | _ => cases hlead

theorem head_behind (h : Expression) (hx : Follows x) :
    ∀ c ∈ (h.behind x).head?, isWordChar c = false := by
  cases h with
  | call n es =>
    rintro c ⟨⟩
    decide
  | _ => exact fun c hc => (hx.head c hc).1

/-! Accesses behind a head. -/

inductive Selector where
  | index (subscript : Expression)
  | member (name : String)

namespace Selector

def apply (o : Expression) : Selector → Expression
  | index i => .index o i
  | member n => .member o n

def write : Selector → List Char → List Char
  | index i, rest => '[' :: i.write (']' :: rest)
  | member n, rest => '.' :: (n.toList ++ rest)

/-- The names and the expressions inside are plain. -/
inductive Plain : Selector → Prop
  | index {i : Expression} (subscript : i.Plain) : Plain (index i)
  | member {n : String} (name : IsName n) : Plain (member n)

end Selector

/-- The expression that takes accesses one after another from a head. -/
def select (h : Expression) (ss : List Selector) : Expression := ss.foldl Selector.apply h

theorem select_cons (h : Expression) (s : Selector) (ss : List Selector) :
    select h (s :: ss) = select (s.apply h) ss := rfl

def writeAll (ss : List Selector) (rest : List Char) : List Char := ss.foldr Selector.write rest

theorem write_select (h : Expression) (ss : List Selector) (rest : List Char) :
    (select h ss).write rest = h.write (writeAll ss rest) := by
  induction ss generalizing h with
  | nil => rfl
  | cons s ss ih =>
    rw [select_cons, ih]
    cases s <;> rw [Selector.apply, Expression.write] <;> rfl

theorem exists_select : ∀ t : Expression, ∃ h ss, h.IsHead ∧ t = select h ss
  | .index o i => by
    obtain ⟨h, ss, hh, rfl⟩ := exists_select o
    exact ⟨h, ss ++ [.index i], hh, by simp [select, Selector.apply]⟩
  | .member o n => by
    obtain ⟨h, ss, hh, rfl⟩ := exists_select o
    exact ⟨h, ss ++ [.member n], hh, by simp [select, Selector.apply]⟩
  | .ident n => ⟨.ident n, [], trivial, rfl⟩
  | .int v s => ⟨.int v s, [], trivial, rfl⟩
  | .float v => ⟨.float v, [], trivial, rfl⟩
  | .bool b => ⟨.bool b, [], trivial, rfl⟩
  | .binary op l r => ⟨.binary op l r, [], trivial, rfl⟩
  | .unary op e => ⟨.unary op e, [], trivial, rfl⟩
  | .call n es => ⟨.call n es, [], trivial, rfl⟩

theorem plain_select {h : Expression} {ss : List Selector} (hp : (select h ss).Plain) :
    h.Plain ∧ ∀ s ∈ ss, s.Plain := by
  induction ss generalizing h with
  | nil => exact ⟨hp, by simp⟩
  | cons s ss ih =>
    obtain ⟨happly, hss⟩ := ih hp
    cases s with
    | index i =>
      cases happly with
      | index object subscript => exact ⟨object, List.forall_mem_cons.2 ⟨.index subscript, hss⟩⟩
    | member n =>
      cases happly with
      | member object name => exact ⟨object, List.forall_mem_cons.2 ⟨.member name, hss⟩⟩

/-- The head and the subscripts are no larger than the whole. -/
theorem sizeOf_select (h : Expression) (ss : List Selector) :
    sizeOf h ≤ sizeOf (select h ss) ∧ ∀ i, .index i ∈ ss → sizeOf i < sizeOf (select h ss) := by
  induction ss generalizing h with
  | nil => exact ⟨Nat.le_refl _, by simp⟩
  | cons s ss ih =>
    obtain ⟨hle, hss⟩ := ih (s.apply h)
    rw [select_cons]
    cases s with
    | index i =>
      have hsize : sizeOf (Selector.apply h (.index i)) = 1 + sizeOf h + sizeOf i :=
        Expression.index.sizeOf_spec h i
      refine ⟨by omega, fun j hj => ?_⟩
      rcases List.mem_cons.1 hj with hj | hj
      · cases hj
        omega
      · exact hss j hj
    | member n =>
      have hsize : sizeOf (Selector.apply h (.member n)) = 1 + sizeOf h + sizeOf n :=
        Expression.member.sizeOf_spec h n
      refine ⟨by omega, fun j hj => ?_⟩
      rcases List.mem_cons.1 hj with hj | hj
      · cases hj
      · exact hss j hj

/-- What comes behind a head may, if what comes behind the accesses may come behind an
expression. -/
theorem Stops.follows_writeAll {ss : List Selector} (hss : ∀ s ∈ ss, s.Plain) (h : Stops rest) :
    Follows (writeAll ss rest) := by
  rcases ss with _ | ⟨s, ss⟩
  · exact h.follows
  · cases hss s List.mem_cons_self with
    | index subscript =>
      refine ⟨?_, ?_⟩
      · rintro c ⟨⟩
        decide
      · rintro cs ⟨⟩
    | member name =>
      refine ⟨?_, ?_⟩
      · rintro c ⟨⟩
        decide
      · rintro cs ⟨⟩ c hc
        rw [List.head?_append_of_ne_nil _ name.ne_nil] at hc
        exact name.start c hc

/-- Accesses can be told from other ones, and from what comes behind them. -/
theorem writeAll_unique {ss ts : List Selector} (hss : ∀ s ∈ ss, s.Plain) (hts : ∀ s ∈ ts, s.Plain)
    (htold : ∀ i, .index i ∈ ss → Told i) (hx : Stops x) (hy : Stops y)
    (heq : writeAll ss x = writeAll ts y) : ss = ts ∧ x = y := by
  have hselector : ∀ (s : Selector) {x y : List Char}, Stops x → x = s.write y → False := by
    rintro (i | n) x y hx rfl
    · rcases hx '[' rfl with h | h | h | h <;> exact absurd h (by decide)
    · rcases hx '.' rfl with h | h | h | h <;> exact absurd h (by decide)
  induction ss generalizing ts with
  | nil =>
    cases ts with
    | nil => exact ⟨rfl, heq⟩
    | cons t ts => exact (hselector t hx heq).elim
  | cons s ss ih =>
    cases ts with
    | nil => exact (hselector s hy heq.symm).elim
    | cons t ts =>
      obtain ⟨hs, hrest⟩ := List.forall_mem_cons.1 hss
      obtain ⟨ht, hrest'⟩ := List.forall_mem_cons.1 hts
      have ih := @ih ts hrest hrest' (fun i hi => htold i (List.mem_cons_of_mem _ hi))
      have hclose : ∀ z, Stops (']' :: z) := by
        rintro z c ⟨⟩
        decide
      cases hs with
      | @index i subscript =>
        cases ht with
        | @index j subscript' =>
          obtain ⟨rfl, hmore⟩ :=
            htold i List.mem_cons_self j _ _ subscript' (hclose _) (hclose _) (List.cons.inj heq).2
          obtain ⟨rfl, rfl⟩ := ih (List.cons.inj hmore).2
          exact ⟨rfl, rfl⟩
        | member name => cases heq
      | @member n name =>
        cases ht with
        | index subscript => cases heq
        | @member n' name' =>
          have hfollows := hx.follows_writeAll hrest
          have hfollows' := hy.follows_writeAll hrest'
          obtain ⟨hn, hmore⟩ := run_unique name.word name'.word (fun c hc => (hfollows.head c hc).1)
            (fun c hc => (hfollows'.head c hc).1) (List.cons.inj heq).2
          obtain ⟨rfl, rfl⟩ := ih hmore
          rw [String.toList_inj.1 hn]
          exact ⟨rfl, rfl⟩

/-! Heads. -/

theorem lead_ne_none {t : Expression} (ht : t.Plain) (rest : List Char) :
    lead (t.write rest) ≠ .none := by
  obtain ⟨h, ss, hh, rfl⟩ := exists_select t
  rw [write_select, lead_write hh (plain_select ht).1]
  exact hh.lead_ne_none

theorem stops_cons {c : Char} (h : c = ' ' ∨ c = ',' ∨ c = ')' ∨ c = ']') (rest : List Char) :
    Stops (c :: rest) := by
  rintro d ⟨⟩
  exact h

theorem stops_writeMore (es : List Expression) (rest : List Char) :
    Stops (writeMore es (')' :: rest)) := by
  cases es with
  | nil => exact stops_cons (by decide) rest
  | cons e es => exact stops_cons (by decide) _

/-- Further arguments can be told from other ones. -/
theorem writeMore_unique {es es' : List Expression} (htold : ∀ e ∈ es, Told e)
    (hp : ∀ e ∈ es', e.Plain) (heq : writeMore es (')' :: x) = writeMore es' (')' :: y)) :
    es = es' ∧ x = y := by
  induction es generalizing es' with
  | nil =>
    cases es' with
    | nil => exact ⟨rfl, (List.cons.inj heq).2⟩
    | cons e' es' => cases heq
  | cons e es ih =>
    cases es' with
    | nil => cases heq
    | cons e' es' =>
      obtain ⟨he, hes⟩ := List.forall_mem_cons.1 htold
      obtain ⟨he', hes'⟩ := List.forall_mem_cons.1 hp
      obtain ⟨rfl, hmore⟩ := he e' _ _ he' (stops_writeMore es x) (stops_writeMore es' y)
        (List.cons.inj (List.cons.inj heq).2).2
      obtain ⟨rfl, rfl⟩ := ih hes hes' hmore
      exact ⟨rfl, rfl⟩

/-- Arguments can be told from other ones. -/
theorem writeArgs_unique {es es' : List Expression} (htold : ∀ e ∈ es, Told e)
    (hes : ∀ e ∈ es, e.Plain) (hes' : ∀ e ∈ es', e.Plain)
    (heq : writeArgs es (')' :: x) = writeArgs es' (')' :: y)) : es = es' ∧ x = y := by
  -- No expression begins like the bracket behind the arguments.
  have hend : ∀ (e : Expression) (z rest : List Char), e.Plain → ')' :: z ≠ e.write rest := by
    intro e z rest he h
    exact lead_ne_none he rest (h ▸ rfl)
  cases es with
  | nil =>
    cases es' with
    | nil => exact ⟨rfl, (List.cons.inj heq).2⟩
    | cons e' es' => exact (hend e' x _ (hes' e' List.mem_cons_self) heq).elim
  | cons e es =>
    cases es' with
    | nil => exact (hend e y _ (hes e List.mem_cons_self) heq.symm).elim
    | cons e' es' =>
      obtain ⟨he, hrest⟩ := List.forall_mem_cons.1 htold
      obtain ⟨he', hrest'⟩ := List.forall_mem_cons.1 hes'
      obtain ⟨rfl, hmore⟩ := he e' _ _ he' (stops_writeMore es x) (stops_writeMore es' y) heq
      obtain ⟨rfl, rfl⟩ := writeMore_unique hrest hrest' hmore
      exact ⟨rfl, rfl⟩

/-- Heads that begin with a word. -/
theorem word_unique {h k : Expression} (hh : h.Plain) (hk : k.Plain) (hlead : h.lead = .word)
    (klead : k.lead = .word) (htold : ∀ e ∈ h.parts, Told e) (hx : Follows x) (hy : Follows y)
    (heq : h.write x = k.write y) : h = k ∧ x = y := by
  have hother : ∀ {n : String} (b : Bool), IsName n → n ≠ if b then "true" else "false" := by
    intro n b hn
    cases b
    · exact hn.other.2
    · exact hn.other.1
  have hbracket : ∀ {z rest}, Follows z → z ≠ '(' :: rest := by
    rintro z rest hz rfl
    exact (hz.head '(' rfl).2 rfl
  obtain ⟨hword, hbehind⟩ : h.word = k.word ∧ h.behind x = k.behind y := by
    rw [write_word hlead, write_word klead] at heq
    obtain ⟨hword, hbehind⟩ :=
      run_unique (hh.isWordChar_word hlead) (hk.isWordChar_word klead) (head_behind h hx)
      (head_behind k hy) heq
    exact ⟨String.toList_inj.1 hword, hbehind⟩
  cases hh with
  | ident name =>
    cases hk with
    | ident name' => exact ⟨congrArg Expression.ident hword, hbehind⟩
    | bool b => exact (hother b name hword).elim
    | call target args => exact (hbracket hx hbehind).elim
    | _ => cases klead
  | bool b =>
    cases hk with
    | ident name => exact (hother b name hword.symm).elim
    | bool b' =>
      have hb : b = b' := by
        cases b <;> cases b' <;> first | rfl | exact absurd hword (by decide)
      exact ⟨congrArg Expression.bool hb, hbehind⟩
    | call target args => exact (hbracket hx hbehind).elim
    | _ => cases klead
  | call target args =>
    cases hk with
    | ident name => exact (hbracket hy hbehind.symm).elim
    | bool b => exact (hbracket hy hbehind.symm).elim
    | call target' args' =>
      obtain ⟨rfl, rfl⟩ :=
        writeArgs_unique (List.forall_mem_cons.1 htold).2 args args' (List.cons.inj hbehind).2
      exact ⟨congrArg (Expression.call · _) hword, rfl⟩
    | _ => cases klead
  | _ => cases hlead

/-- A sign and digits can be told from what comes behind them. -/
theorem digits_unique {n n' : Bool} {ds ds' cs cs' : List Char} (hds : ds ≠ []) (hds' : ds' ≠ [])
    (hdigit : ∀ c ∈ ds, c.isDigit = true) (hdigit' : ∀ c ∈ ds', c.isDigit = true)
    (hcs : ∀ c ∈ cs.head?, c.isDigit = false) (hcs' : ∀ c ∈ cs'.head?, c.isDigit = false)
    (heq : signText n ++ (ds ++ cs) = signText n' ++ (ds' ++ cs')) :
    n = n' ∧ ds = ds' ∧ cs = cs' := by
  have hhead : ∀ {ds : List Char} (cs : List Char), ds ≠ [] → (∀ c ∈ ds, c.isDigit = true) →
      ∀ c ∈ (ds ++ cs).head?, c.isDigit = true := by
    intro ds cs hds hdigit c hc
    rw [List.head?_append_of_ne_nil _ hds] at hc
    exact hdigit c (List.mem_of_mem_head? hc)
  obtain ⟨hn, hmore⟩ := sign_unique (hhead cs hds hdigit) (hhead cs' hds' hdigit') heq
  exact ⟨hn, run_unique hdigit hdigit' hcs hcs' hmore⟩

theorem head_suffix (s : IntSuffix) (hx : Follows x) :
    ∀ c ∈ (s.text.toList ++ x).head?, c.isDigit = false := by
  cases s with
  | none => exact fun c hc => isDigit_eq_false (hx.head c hc).1
  | i =>
    rintro c ⟨⟩
    decide
  | u =>
    rintro c ⟨⟩
    decide

theorem suffix_unique {s s' : IntSuffix} (hx : Follows x) (hy : Follows y)
    (heq : s.text.toList ++ x = s'.text.toList ++ y) : s = s' ∧ x = y := by
  have hletter : ∀ {z rest : List Char} {c : Char}, isWordChar c = true → Follows z →
      z ≠ c :: rest := by
    rintro z rest c hc hz rfl
    exact Bool.false_ne_true ((hz.head c rfl).1.symm.trans hc)
  cases s <;> cases s'
  · exact ⟨rfl, heq⟩
  · exact (hletter (by decide) hx heq).elim
  · exact (hletter (by decide) hx heq).elim
  · exact (hletter (by decide) hy heq.symm).elim
  · exact ⟨rfl, (List.cons.inj heq).2⟩
  · cases heq
  · exact (hletter (by decide) hy heq.symm).elim
  · cases heq
  · exact ⟨rfl, (List.cons.inj heq).2⟩

/-- An integer has no point and digits behind it. -/
theorem suffix_ne_point {s : IntSuffix} {part : List Char} (hpart : part ≠ [])
    (hdigit : ∀ c ∈ part, c.isDigit = true) (hx : Follows x) :
    s.text.toList ++ x ≠ '.' :: (part ++ y) := by
  intro heq
  cases s with
  | none =>
    obtain ⟨c, cs, rfl⟩ := List.exists_cons_of_ne_nil hpart
    exact Bool.false_ne_true ((hx.point _ heq c rfl).symm.trans (hdigit c List.mem_cons_self))
  | i => cases heq
  | u => cases heq

theorem int_unique {v v' : Int} {s s' : IntSuffix} (hx : Follows x) (hy : Follows y)
    (heq : (int v s).write x = (int v' s').write y) : int v s = int v' s' ∧ x = y := by
  rw [write, write, int_text, int_text, List.append_assoc, List.append_assoc] at heq
  obtain ⟨hsign, hdigits, hmore⟩ := digits_unique (digits_ne_nil _) (digits_ne_nil _)
    (fun _ => Decimal.isDigit_of_mem_digitText) (fun _ => Decimal.isDigit_of_mem_digitText)
    (head_suffix s hx)
    (head_suffix s' hy) heq
  obtain ⟨rfl, rfl⟩ := suffix_unique hx hy hmore
  have habs : v.natAbs = v'.natAbs := by
    rw [← Decimal.ofDigitChars_digitText v.natAbs, hdigits, Decimal.ofDigitChars_digitText]
  have hv : v = v' := by
    rw [decide_eq_decide] at hsign
    omega
  rw [hv]
  exact ⟨rfl, rfl⟩

theorem int_ne_float {v : Int} {s : IntSuffix} {f : Binary64} (hf : Finite f) (hx : Follows x) :
    (int v s).write x ≠ (Expression.float f).write y := by
  obtain ⟨m, e, hf⟩ := hf
  obtain ⟨cs, whole, part, htext, hpointed, -⟩ := exists_floatText hf
  intro heq
  rw [write, write, int_text, htext, hpointed.text, List.append_assoc, List.append_assoc,
    List.append_assoc] at heq
  have hpoint : ∀ c ∈ ('.' :: part ++ y).head?, c.isDigit = false := by
    rintro c ⟨⟩
    decide
  obtain ⟨-, -, hmore⟩ := digits_unique (digits_ne_nil _) hpointed.whole.1
    (fun _ => Decimal.isDigit_of_mem_digitText) hpointed.whole.2 (head_suffix s hx) hpoint heq
  exact suffix_ne_point hpointed.part.1 hpointed.part.2 hx hmore

theorem float_unique {f f' : Binary64} (hf : Finite f) (hf' : Finite f') (hx : Follows x)
    (hy : Follows y) (heq : (Expression.float f).write x = (Expression.float f').write y) :
    f = f' ∧ x = y := by
  obtain ⟨m, e, hm⟩ := hf
  obtain ⟨m', e', hm'⟩ := hf'
  obtain ⟨cs, whole, part, htext, hpointed, -⟩ := exists_floatText hm
  obtain ⟨cs', whole', part', htext', hpointed', -⟩ := exists_floatText hm'
  have hpoint : ∀ part y : List Char, ∀ c ∈ ('.' :: part ++ y).head?, c.isDigit = false := by
    rintro part y c ⟨⟩
    decide
  rw [write, write, htext, htext', hpointed.text, hpointed'.text, List.append_assoc,
    List.append_assoc, List.append_assoc, List.append_assoc] at heq
  obtain ⟨hsign, hwhole, hmore⟩ :=
    digits_unique hpointed.whole.1 hpointed'.whole.1 hpointed.whole.2 hpointed'.whole.2
    (hpoint part x) (hpoint part' y) heq
  obtain ⟨hpart, hrest⟩ :=
    run_unique hpointed.part.2 hpointed'.part.2 (fun c hc => isDigit_eq_false (hx.head c hc).1)
    (fun c hc => isDigit_eq_false (hy.head c hc).1) (List.cons.inj hmore).2
  have hfloat : floatText f = floatText f' := by
    rw [← String.toList_inj, htext, htext', hpointed.text, hpointed'.text, hsign, hwhole, hpart]
  exact ⟨eq_of_floatText ⟨m, e, hm⟩ ⟨m', e', hm'⟩ hfloat, hrest⟩

/-- Heads that begin with a number. -/
theorem number_unique {h k : Expression} (hh : h.Plain) (hk : k.Plain) (hlead : h.lead = .number)
    (klead : k.lead = .number) (hx : Follows x) (hy : Follows y) (heq : h.write x = k.write y) :
    h = k ∧ x = y := by
  cases hh with
  | int v s =>
    cases hk with
    | int v' s' => exact int_unique hx hy heq
    | float finite => exact (int_ne_float finite hx heq).elim
    | _ => cases klead
  | float finite =>
    cases hk with
    | int v s => exact (int_ne_float finite hy heq.symm).elim
    | float finite' =>
      obtain ⟨rfl, rfl⟩ := float_unique finite finite' hx hy heq
      exact ⟨rfl, rfl⟩
    | _ => cases klead
  | _ => cases hlead

/-- Operations between brackets. -/
theorem binary_unique {op op' : BinaryOp} {l r l' r' : Expression} (hop : op ∈ BinaryOp.declared)
    (hop' : op' ∈ BinaryOp.declared) (hl : Told l) (hr : Told r) (hl' : l'.Plain) (hr' : r'.Plain)
    (heq : (binary op l r).write x = (binary op' l' r').write y) :
    binary op l r = binary op' l' r' ∧ x = y := by
  rw [write, write] at heq
  obtain ⟨rfl, hbehind⟩ :=
    hl l' _ _ hl' (stops_cons (by decide) _) (stops_cons (by decide) _) (List.cons.inj heq).2
  obtain ⟨rfl, hright⟩ := binary_text_unique hop hop' (List.cons.inj hbehind).2
  obtain ⟨rfl, hrest⟩ := hr r' _ _ hr' (stops_cons (by decide) _) (stops_cons (by decide) _) hright
  exact ⟨rfl, (List.cons.inj hrest).2⟩

/-- Operations on one operand. -/
theorem unary_unique {op op' : UnaryOp} {e e' : Expression} (hop : op ∈ UnaryOp.declared)
    (hop' : op' ∈ UnaryOp.declared) (he : Told e) (he' : e'.Plain)
    (heq : (unary op e).write x = (unary op' e').write y) : unary op e = unary op' e' ∧ x = y := by
  obtain ⟨c, hc, -, hparse⟩ := unary_text hop
  obtain ⟨c', hc', -, hparse'⟩ := unary_text hop'
  rw [write, write, hc, hc'] at heq
  obtain ⟨rfl, hmore⟩ := List.cons.inj heq
  obtain rfl : op = op' := Option.some.inj (hparse.symm.trans hparse')
  obtain ⟨rfl, hrest⟩ :=
    he e' _ _ he' (stops_cons (by decide) _) (stops_cons (by decide) _) (List.cons.inj hmore).2
  exact ⟨rfl, (List.cons.inj hrest).2⟩

/-- Heads can be told from other ones, if the expressions inside of them can be. -/
theorem head_unique {h k : Expression} (hh : h.IsHead) (hk : k.IsHead) (hp : h.Plain) (kp : k.Plain)
    (htold : ∀ e ∈ h.parts, Told e) (hx : Follows x) (hy : Follows y)
    (heq : h.write x = k.write y) : h = k ∧ x = y := by
  have hlead : h.lead = k.lead := by rw [← lead_write hh hp x, heq, lead_write hk kp]
  cases hcase : h.lead with
  | none => exact (hh.lead_ne_none hcase).elim
  | word => exact word_unique hp kp hcase (hlead ▸ hcase) htold hx hy heq
  | number => exact number_unique hp kp hcase (hlead ▸ hcase) hx hy heq
  | bracket =>
    cases hp with
    | @binary op l r declared lhs rhs =>
      cases kp with
      | binary declared' lhs' rhs' =>
        exact binary_unique declared declared' (htold l (by simp [parts]))
          (htold r (by simp [parts])) lhs' rhs' heq
      | _ => cases hlead
    | _ => cases hcase
  | sign =>
    cases hp with
    | @unary op e declared operand =>
      cases kp with
      | unary declared' operand' =>
        exact unary_unique declared declared' (htold e (by simp [parts])) operand' heq
      | _ => cases hlead
    | _ => cases hcase

/-- Plain expressions can be told from each other. -/
theorem told_of_plain {t : Expression} (ht : t.Plain) : Told t := by
  induction hn : sizeOf t using Nat.strong_induction_on generalizing t with
  | _ n ih =>
    intro u r r' hu hr hr' heq
    obtain ⟨h, ss, hh, rfl⟩ := exists_select t
    obtain ⟨k, ts, hk, rfl⟩ := exists_select u
    obtain ⟨hp, hss⟩ := plain_select ht
    obtain ⟨kp, hts⟩ := plain_select hu
    obtain ⟨hsize, hsizes⟩ := sizeOf_select h ss
    rw [write_select, write_select] at heq
    have hparts : ∀ e ∈ h.parts, Told e := by
      intro e he
      have := sizeOf_part he
      exact ih _ (by omega) (hp.part he) rfl
    have hsubscripts : ∀ i, .index i ∈ ss → Told i := by
      intro i hi
      cases hss _ hi with
      | index subscript => exact ih _ (hn ▸ hsizes i hi) subscript rfl
    obtain ⟨rfl, hrest⟩ :=
      head_unique hh hk hp kp hparts (hr.follows_writeAll hss) (hr'.follows_writeAll hts) heq
    obtain ⟨rfl, rfl⟩ := writeAll_unique hss hts hsubscripts hr hr' hrest
    exact ⟨rfl, rfl⟩

end ShaderLoom.Print
