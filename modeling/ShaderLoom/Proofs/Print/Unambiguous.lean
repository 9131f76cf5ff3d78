import Mathlib.Data.List.Perm.Subperm
import ShaderLoom.Proofs.Print.Expression

/-! Expressions that nodes of an arena show. Printing a node gives the text of its expression, for
no path through an expression meets a node twice and so the fuel suffices. With texts that can be
told apart, nodes that print alike show the same expression. -/
namespace ShaderLoom.Print

open Expression

mutual

/-- The node is the expression, and its children are those of the expression. -/
def Shows (a : Arena) : NodeId → Expression → Prop
  | i, .ident n => ∃ s, a.shape? i = some (.expr (.ident s)) ∧ a.nameOf s = n
  | i, .int v s => a.shape? i = some (.expr (.int v s))
  | i, .float v => a.shape? i = some (.expr (.float v))
  | i, .bool b => a.shape? i = some (.expr (.bool b))
  | i, .binary op l r =>
    ∃ j k, a.shape? i = some (.expr (.binary op j k)) ∧ Shows a j l ∧ Shows a k r
  | i, .unary op e => ∃ j, a.shape? i = some (.expr (.unary op j)) ∧ Shows a j e
  | i, .call n es => ∃ j ids, a.shape? i = some (.expr (.call j ids)) ∧
      (∃ s, a.shape? j = some (.expr (.ident s)) ∧ a.nameOf s = n) ∧ ShowAll a ids es
  | i, .index o e => ∃ j k, a.shape? i = some (.expr (.index j k)) ∧ Shows a j o ∧ Shows a k e
  | i, .member o n => ∃ j s, a.shape? i = some (.expr (.member j s)) ∧ Shows a j o ∧ a.nameOf s = n

/-- The nodes are the expressions, one by one. -/
def ShowAll (a : Arena) : List NodeId → List Expression → Prop
  | [], [] => True
  | i :: ids, e :: es => Shows a i e ∧ ShowAll a ids es
  | _, _ => False

end

variable {a b : Arena} {t u e : Expression} {i j : NodeId} {path : List NodeId}

theorem ShowAll.unique {ids : List NodeId} {es es' : List Expression}
    (hunique : ∀ e ∈ es, ∀ {u i}, Shows a i e → Shows a i u → e = u) (h : ShowAll a ids es)
    (h' : ShowAll a ids es') : es = es' := by
  induction ids generalizing es es' with
  | nil =>
    cases es with
    | nil =>
      cases es' with
      | nil => rfl
      | cons _ _ => exact h'.elim
    | cons _ _ => exact h.elim
  | cons i ids ih =>
    cases es with
    | nil => exact h.elim
    | cons e es =>
      cases es' with
      | nil => exact h'.elim
      | cons e' es' =>
        obtain ⟨he, hes⟩ := List.forall_mem_cons.1 hunique
        rw [he h.1 h'.1, ih hes h.2 h'.2]

/-- A node shows one expression at most. -/
theorem Shows.unique (h : Shows a i t) (h' : Shows a i u) : t = u := by
  induction hn : sizeOf t using Nat.strong_induction_on generalizing t u i with
  | _ n ih =>
    have hpart : ∀ e ∈ t.parts, ∀ {u i}, Shows a i e → Shows a i u → e = u := fun e he u i h h' =>
      ih _ (hn ▸ sizeOf_part he) h h' rfl
    cases t with
    | ident n =>
      obtain ⟨s, hs, rfl⟩ := h
      cases u with
      | ident n' =>
        obtain ⟨s', hs', rfl⟩ := h'
        cases hs.symm.trans hs'
        rfl
      | _ => simp [Shows, hs] at h'
    | int v s =>
      rw [Shows] at h
      cases u with
      | int v' s' =>
        cases h.symm.trans h'
        rfl
      | _ => simp [Shows, h] at h'
    | float v =>
      rw [Shows] at h
      cases u with
      | float v' =>
        cases h.symm.trans h'
        rfl
      | _ => simp [Shows, h] at h'
    | bool b =>
      rw [Shows] at h
      cases u with
      | bool b' =>
        cases h.symm.trans h'
        rfl
      | _ => simp [Shows, h] at h'
    | binary op l r =>
      obtain ⟨j, k, hs, hl, hr⟩ := h
      cases u with
      | binary op' l' r' =>
        obtain ⟨j', k', hs', hl', hr'⟩ := h'
        cases hs.symm.trans hs'
        rw [hpart l (by simp [parts]) hl hl', hpart r (by simp [parts]) hr hr']
      | _ => simp [Shows, hs] at h'
    | unary op e =>
      obtain ⟨j, hs, he⟩ := h
      cases u with
      | unary op' e' =>
        obtain ⟨j', hs', he'⟩ := h'
        cases hs.symm.trans hs'
        rw [hpart e (by simp [parts]) he he']
      | _ => simp [Shows, hs] at h'
    | call n es =>
      obtain ⟨j, ids, hs, ⟨s, hj, rfl⟩, hes⟩ := h
      cases u with
      | call n' es' =>
        obtain ⟨j', ids', hs', ⟨s', hj', rfl⟩, hes'⟩ := h'
        cases hs.symm.trans hs'
        cases hj.symm.trans hj'
        rw [hes.unique (fun e he => hpart e (List.mem_cons_of_mem _ he)) hes']
      | _ => simp [Shows, hs] at h'
    | index o e =>
      obtain ⟨j, k, hs, ho, he⟩ := h
      cases u with
      | index o' e' =>
        obtain ⟨j', k', hs', ho', he'⟩ := h'
        cases hs.symm.trans hs'
        rw [hpart o (by simp [parts]) ho ho', hpart e (by simp [parts]) he he']
      | _ => simp [Shows, hs] at h'
    | member o n =>
      obtain ⟨j, s, hs, ho, rfl⟩ := h
      cases u with
      | member o' n' =>
        obtain ⟨j', s', hs', ho', rfl⟩ := h'
        cases hs.symm.trans hs'
        rw [hpart o (by simp [parts]) ho ho']
      | _ => simp [Shows, hs] at h'

theorem Shows.isSome_node? (h : Shows a i t) : (a.node? i).isSome := by
  have hshape : (a.shape? i).isSome := by
    cases t with
    | ident n =>
      obtain ⟨s, hs, -⟩ := h
      simp [hs]
    | call n es =>
      obtain ⟨j, ids, hs, -⟩ := h
      simp [hs]
    | binary op l r =>
      obtain ⟨j, k, hs, -⟩ := h
      simp [hs]
    | unary op e =>
      obtain ⟨j, hs, -⟩ := h
      simp [hs]
    | index o e =>
      obtain ⟨j, k, hs, -⟩ := h
      simp [hs]
    | member o n =>
      obtain ⟨j, s, hs, -⟩ := h
      simp [hs]
    | _ =>
      rw [Shows] at h
      simp [h]
  rwa [Arena.shape?, Option.isSome_map] at hshape

/-- Nodes that show larger expressions than `t`, none of them twice. -/
structure Above (a : Arena) (path : List NodeId) (t : Expression) : Prop where
  nodup : path.Nodup
  larger : ∀ j ∈ path, ∃ u, Shows a j u ∧ sizeOf t < sizeOf u

theorem above_nil (a : Arena) (t : Expression) : Above a [] t := ⟨.nil, by simp⟩

theorem Above.cons (h : Above a path t) (hi : Shows a i t) (he : e ∈ t.parts) :
    Above a (i :: path) e where
  nodup := by
    refine List.nodup_cons.2 ⟨fun hmem => ?_, h.nodup⟩
    obtain ⟨u, hu, hlt⟩ := h.larger i hmem
    rw [hi.unique hu] at hlt
    exact Nat.lt_irrefl _ hlt
  larger := by
    have hlt := sizeOf_part he
    refine List.forall_mem_cons.2 ⟨⟨t, hi, hlt⟩, fun j hj => ?_⟩
    obtain ⟨u, hu, hlt'⟩ := h.larger j hj
    exact ⟨u, hu, hlt.trans hlt'⟩

theorem Above.length_le (h : Above a path t) : path.length ≤ a.size := by
  have hsub : path ⊆ a.ids := by
    intro j hj
    obtain ⟨u, hu, -⟩ := h.larger j hj
    obtain ⟨hpos, hle⟩ := Arena.node?_isSome_iff.1 hu.isSome_node?
    exact List.mem_map.2 ⟨j - 1, List.mem_range.2 (Nat.sub_one_lt_of_le hpos hle),
      Nat.sub_add_cancel hpos⟩
  have := (List.subperm_of_subset h.nodup hsub).length_le
  simpa [Arena.ids] using this

theorem ne_zero_of_shows (h : Shows a i t) : i ≠ 0 := by
  rintro rfl
  simpa using h.isSome_node?

theorem ShowAll.filter_ne_zero {ids : List NodeId} {es : List Expression} (h : ShowAll a ids es) :
    ids.filter (· != 0) = ids := by
  refine List.filter_eq_self.2 ?_
  induction ids generalizing es with
  | nil => simp
  | cons i ids ih =>
    cases es with
    | nil => exact h.elim
    | cons e es => exact List.forall_mem_cons.2 ⟨by simpa using ne_zero_of_shows h.1, ih h.2⟩

section Arguments

variable {child : NodeId → String} {ids : List NodeId} {es : List Expression}

theorem toList_intercalate_cons
    (hchild : ∀ e ∈ es, ∀ j, Shows a j e → ∀ rest, (child j).toList ++ rest = e.write rest)
    (h : ShowAll a ids es) (first : String) (rest : List Char) :
    (", ".intercalate (first :: ids.map child)).toList ++ rest = first.toList ++
    writeMore es rest := by
  induction ids generalizing es first with
  | nil =>
    cases es with
    | nil => simp [writeMore]
    | cons e es => exact h.elim
  | cons i ids ih =>
    cases es with
    | nil => exact h.elim
    | cons e es =>
      obtain ⟨he, hes⟩ := List.forall_mem_cons.1 hchild
      rw [List.map_cons, String.intercalate_cons_cons, String.toList_append, List.append_assoc,
        ih hes h.2, writeMore, ← he i h.1]
      simp

theorem toList_commaList
    (hchild : ∀ e ∈ es, ∀ j, Shows a j e → ∀ rest, (child j).toList ++ rest = e.write rest)
    (h : ShowAll a ids es) (rest : List Char) :
    (commaList child ids).toList ++ rest = writeArgs es rest := by
  rw [commaList, h.filter_ne_zero]
  cases ids with
  | nil =>
    cases es with
    | nil => simp [writeArgs]
    | cons e es => exact h.elim
  | cons i ids =>
    cases es with
    | nil => exact h.elim
    | cons e es =>
      obtain ⟨he, hes⟩ := List.forall_mem_cons.1 hchild
      rw [List.map_cons, toList_intercalate_cons hes h.2, writeArgs, he i h.1]

end Arguments

/-- Printing takes as much fuel as there are nodes that are not yet on the path. -/
theorem toList_render {fuel level : Nat} (hpath : Above a path t) (hi : Shows a i t)
    (hfuel : a.size < path.length + fuel) (rest : List Char) :
    (render a {} fuel .node level i).toList ++ rest = t.write rest := by
  induction fuel generalizing t i path rest with
  | zero =>
    have := hpath.length_le
    omega
  | succ fuel ih =>
    have hchild : ∀ e ∈ t.parts, ∀ j, Shows a j e → ∀ rest,
        (render a {} fuel .node level j).toList ++ rest = e.write rest :=
      fun e he j hj rest => ih (hpath.cons hi he) hj (by rw [List.length_cons]; omega) rest
    rw [render, nodeText]
    cases t with
    | ident n =>
      obtain ⟨s, hs, rfl⟩ := hi
      simp [hs, exprText, write]
    | int v s =>
      rw [Shows] at hi
      simp [hi, exprText, write]
    | float v =>
      rw [Shows] at hi
      simp [hi, exprText, write]
    | bool b =>
      rw [Shows] at hi
      cases b <;> simp [hi, exprText, write]
    | binary op l r =>
      obtain ⟨j, k, hs, hl, hr⟩ := hi
      rw [write, ← hchild l (by simp [parts]) j hl, ← hchild r (by simp [parts]) k hr]
      simp [hs, exprText]
    | unary op e =>
      obtain ⟨j, hs, he⟩ := hi
      rw [write, ← hchild e (by simp [parts]) j he]
      simp [hs, exprText]
    | call n es =>
      obtain ⟨j, ids, hs, htarget, hes⟩ := hi
      have hname : ∀ rest, n.toList ++ rest = (render a {} fuel .node level j).toList ++ rest := by
        intro rest
        rw [hchild (ident n) (by simp [parts]) j htarget, write]
      have hargs := toList_commaList (fun e he => hchild e (by simp [parts, he])) hes
      rw [write, ← hargs, hname]
      simp [hs, exprText]
    | index o e =>
      obtain ⟨j, k, hs, ho, he⟩ := hi
      rw [write, ← hchild o (by simp [parts]) j ho, ← hchild e (by simp [parts]) k he]
      simp [hs, exprText]
    | member o n =>
      obtain ⟨j, s, hs, ho, rfl⟩ := hi
      rw [write, ← hchild o (by simp [parts]) j ho]
      simp [hs, exprText]

/-- The text of a node is that of its expression. -/
theorem toList_node (hi : Shows a i t) : (node a i).toList = t.write [] := by
  have hn : a.size < ([] : List NodeId).length + fuelFor a := by
    rw [fuelFor, List.length_nil]
    omega
  rw [node, ← toList_render (above_nil a t) hi hn, List.append_nil]

/-- Nodes with the same text show the same expression, in whatever arenas they are. -/
theorem node_unambiguous (hi : Shows a i t) (hj : Shows b j u) (ht : t.Plain) (hu : u.Plain)
    (h : node a i = node b j) : t = u := by
  have hstops : Stops [] := by rintro c ⟨⟩
  have htext : t.write [] = u.write [] := by rw [← toList_node hi, ← toList_node hj, h]
  exact (told_of_plain ht u [] [] hu hstops hstops htext).1

/-- The expression `-(f(x, 1.5, x)[0].xy)`. -/
def sample : Expression :=
  .unary .negation
    (.member (.index (.call "f" [.ident "x", .float ⟨0x3ff8000000000000⟩, .ident "x"])
      (.int 0 .none)) "xy")

/-- An arena with the expression in which both arguments are one node. -/
def shared : Arena where
  nodes := #[⟨.expr (.ident 2), {}⟩, ⟨.expr (.float ⟨0x3ff8000000000000⟩), {}⟩,
    ⟨.expr (.ident 1), {}⟩,
    ⟨.expr (.call 3 [1, 2, 1]), {}⟩, ⟨.expr (.int 0 .none), {}⟩, ⟨.expr (.index 4 5), {}⟩,
    ⟨.expr (.member 6 3), {}⟩,
    ⟨.expr (.unary .negation 7), {}⟩]
  symbols := { names := #["f", "x", "xy"], nodup := by decide }

/-- An arena with the expression in which every node is used once. -/
def unshared : Arena where
  nodes := #[⟨.expr (.ident 3), {}⟩, ⟨.expr (.ident 2), {}⟩,
    ⟨.expr (.float ⟨0x3ff8000000000000⟩), {}⟩,
    ⟨.expr (.ident 2), {}⟩, ⟨.expr (.call 1 [2, 3, 4]), {}⟩, ⟨.expr (.int 0 .none), {}⟩,
    ⟨.expr (.index 5 6), {}⟩,
    ⟨.expr (.member 7 1), {}⟩, ⟨.expr (.unary .negation 8), {}⟩]
  symbols := { names := #["xy", "x", "f"], nodup := by decide }

theorem plain_sample : sample.Plain :=
  have hx : IsName "x" := by decide
  have hargs : ∀ e ∈ [ident "x", float ⟨0x3ff8000000000000⟩, ident "x"], e.Plain := by
    simp only [List.forall_mem_cons]
    exact ⟨.ident hx, .float ⟨_, _, rfl⟩, .ident hx, by simp⟩
  .unary (by decide) (.member (.index (.call (by decide) hargs) (.int 0 .none)) (by decide))

theorem node_unambiguous_shared : ∃ t u, Shows shared 8 t ∧ Shows unshared 9 u ∧ t.Plain ∧ u.Plain ∧
    node shared 8 = node unshared 9 ∧ t = u := by
  have hshared : Shows shared 8 sample :=
    ⟨7, rfl, 6, 3, rfl,
      ⟨4, 5, rfl, ⟨3, [1, 2, 1], rfl, ⟨1, rfl, rfl⟩, ⟨2, rfl, rfl⟩, rfl, ⟨2, rfl, rfl⟩, trivial⟩,
        rfl⟩, rfl⟩
  have hunshared : Shows unshared 9 sample :=
    ⟨8, rfl, 7, 1, rfl,
      ⟨5, 6, rfl, ⟨1, [2, 3, 4], rfl, ⟨3, rfl, rfl⟩, ⟨2, rfl, rfl⟩, rfl, ⟨2, rfl, rfl⟩, trivial⟩,
        rfl⟩, rfl⟩
  have htext : node shared 8 = node unshared 9 := by
    rw [← String.toList_inj, toList_node hshared, toList_node hunshared]
  exact ⟨sample, sample, hshared, hunshared, plain_sample, plain_sample, htext,
    node_unambiguous hshared hunshared plain_sample plain_sample htext⟩

end ShaderLoom.Print
