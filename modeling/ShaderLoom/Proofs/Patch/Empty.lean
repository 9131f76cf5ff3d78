import Mathlib.Algebra.GroupWithZero.Nat
import Mathlib.Data.List.TakeWhile
import ShaderLoom.Document.Decode
import ShaderLoom.Patch.Hunk
import ShaderLoom.Print.Shader
import ShaderLoom.Proofs.Patch.Script
import ShaderLoom.Proofs.Program

/-! Empty differences. A difference is empty exactly if both texts are split into the same lines,
and splitting loses what stands behind a line that is too long and carriage returns at the ends of
lines. Texts of programs of which it loses nothing can be told apart. -/
namespace ShaderLoom

namespace Lines

theorem pieces_eq_splitOn (cs : List Char) : pieces cs = cs.splitOn '\n' := by
  induction cs with
  | nil => rfl
  | cons c cs ih =>
    rw [List.splitOn_cons_eq_if_modifyHead, ← ih]
    show (if c = '\n' then [] :: pieces cs else _) = _
    by_cases hc : c = '\n'
    · simp [hc]
    · obtain ⟨first, rest, h⟩ :=
        List.exists_cons_of_ne_nil (ih ▸ List.splitOn_ne_nil '\n' cs : pieces cs ≠ [])
      simp only [hc, if_false, beq_iff_eq]
      rw [← pieces, h, List.modifyHead_cons]

theorem pieces_ne_nil (cs : List Char) : pieces cs ≠ [] :=
  pieces_eq_splitOn cs ▸ List.splitOn_ne_nil '\n' cs

theorem byteLength_eq_sum (cs : List Char) : byteLength cs = (cs.map Char.utf8Size).sum := by
  rw [byteLength, List.sum_eq_foldl, List.foldl_map]

theorem byteLength_append (cs ds : List Char) :
    byteLength (cs ++ ds) = byteLength cs + byteLength ds := by
  simp [byteLength_eq_sum]

/-- Splitting the text loses nothing: each line fits and none ends with a carriage return. -/
def Whole (text : String) : Prop :=
  ∀ l ∈ pieces text.toList, byteLength l ≤ capacity ∧ l.getLast? ≠ some '\r'

instance (text : String) : Decidable (Whole text) := List.decidableBAll _ _

/-- The text is empty, or a line feed ends its last line. -/
def Closed (text : String) : Prop := text = "" ∨ ∃ t, text = t ++ "\n"

theorem pieces_closed {text : String} (h : Closed text) :
    pieces text.toList = (pieces text.toList).dropLast ++ [[]] := by
  rcases h with rfl | ⟨t, rfl⟩
  · rfl
  · have hlast : pieces (t ++ "\n").toList = pieces t.toList ++ [[]] := by
      rw [String.toList_append, pieces_eq_splitOn, pieces_eq_splitOn]
      exact List.splitOn_append_cons_self t.toList []
    rw [hlast, List.dropLast_concat]

theorem split_whole {text : String} (hw : Whole text) (hc : Closed text) :
    split text = (pieces text.toList).dropLast.map String.ofList := by
  have hlast : (pieces text.toList).getLast? = some [] := by
    rw [pieces_closed hc, List.getLast?_concat]
  simp only [split, hlast, if_true]
  rw [List.takeWhile_eq_self_iff.2 fun l hl =>
    decide_eq_true (hw l (List.mem_of_mem_dropLast hl)).1]
  refine List.map_congr_left fun l hl => ?_
  rw [dropReturn, if_neg (hw l (List.mem_of_mem_dropLast hl)).2]

/-- Texts of which splitting loses nothing are equal if their lines are. -/
theorem eq_of_split_eq {s t : String} (hs : Whole s) (ht : Whole t) (hs' : Closed s)
    (ht' : Closed t) (h : split s = split t) : s = t := by
  rw [split_whole hs hs', split_whole ht ht'] at h
  have hpieces : pieces s.toList = pieces t.toList := by
    rw [pieces_closed hs', pieces_closed ht',
      List.map_injective_iff.2 (fun _ _ => String.ofList_inj.1) h]
  have hjoin : ∀ cs, ['\n'].intercalate (pieces cs) = cs := by
    intro cs
    rw [pieces_eq_splitOn]
    exact List.intercalate_splitOn '\n'
  rw [← String.toList_inj, ← hjoin s.toList, hpieces, hjoin]

/-- Nothing is left of a text whose first line does not fit. -/
theorem split_eq_nil {line rest : String} (hline : '\n' ∉ line.toList)
    (hlong : capacity < byteLength line.toList) : split (line ++ "\n" ++ rest) = [] := by
  have hpieces : pieces (line ++ "\n" ++ rest).toList = line.toList :: pieces rest.toList := by
    rw [String.toList_append, String.toList_append, pieces_eq_splitOn, pieces_eq_splitOn,
      List.append_assoc]
    exact List.splitOn_append_cons_self_of_not_mem hline rest.toList
  obtain ⟨l, ls, hls⟩ := List.exists_cons_of_ne_nil (pieces_ne_nil rest.toList)
  have hlong : decide (byteLength line.toList ≤ capacity) = false :=
    decide_eq_false (Nat.not_le.2 hlong)
  rw [split, hpieces, hls]
  split <;> simp [hlong]

end Lines

namespace Patch

theorem groups_eq_nil_iff {context : Int} {places : List Nat} :
    groups context places = [] ↔ places = [] := by
  cases places with
  | nil => simp [groups]
  | cons k rest =>
    rw [groups]
    split
    · simp
    · split <;> simp

theorem hunks_eq_nil_iff (a b : List String) (context : Int) : hunks a b context = [] ↔ a = b := by
  rw [← changes_eq_zero, hunks, List.map_eq_nil_iff, groups_eq_nil_iff, List.map_eq_nil_iff,
    List.filter_eq_nil_iff, changes, List.countP_eq_zero]
  constructor
  · intro h e he
    obtain ⟨k, hk⟩ := List.mem_iff_getElem?.1 he
    exact h (e, k) (List.mem_zipIdx_iff_getElem?.2 hk)
  · rintro h ⟨e, k⟩ he
    exact h e (List.mem_of_getElem? (List.mem_zipIdx_iff_getElem?.1 he))

theorem unified_eq_empty_iff (name : String) (hs : List Hunk) (options : Options) :
    unified name hs options = "" ↔ hs = [] := by
  cases hs with
  | nil => simp [unified]
  | cons h hs => simp [unified]

/-- A difference is empty exactly if both texts have the same lines. -/
theorem diff_eq_empty_iff (name before after : String) (options : Options) :
    diff name before after options = "" ↔ Lines.split before = Lines.split after := by
  rw [diff, unified_eq_empty_iff, between, hunks_eq_nil_iff]

end Patch

/-! Programs. -/

namespace Program

theorem closed_text (p : Program) : Lines.Closed p.text := by
  rcases p.globals.eq_nil_or_concat with h | ⟨ids, id, h⟩
  · exact .inl (by simp [text, textWith, Print.declarations, h])
  · right
    rw [text, textWith, Print.declarations, h, List.concat_eq_append, List.map_append,
      List.map_singleton]
    rcases ids with _ | ⟨first, ids⟩
    · exact ⟨_, String.intercalate_singleton⟩
    · rw [String.intercalate_append_of_ne_nil (by simp) (by simp), String.intercalate_singleton,
        ← String.append_assoc]
      exact ⟨_, rfl⟩

/-- The difference of two programs is empty exactly if their texts have the same lines, which means
the same text if splitting loses nothing of either. -/
theorem diff_empty_iff (name : String) (p q : Program) (options : Patch.Options) :
    (Patch.diff name p.text q.text options = "" ↔ Lines.split p.text = Lines.split q.text) ∧
      (Lines.Whole p.text → Lines.Whole q.text →
      (Patch.diff name p.text q.text options = "" ↔ p.text = q.text)) := by
  have hlines := Patch.diff_eq_empty_iff name p.text q.text options
  refine ⟨hlines, fun hp hq => hlines.trans ⟨fun h => ?_, fun h => by rw [h]⟩⟩
  exact Lines.eq_of_split_eq hp hq p.closed_text q.closed_text h

/-- The module `alias ‹name› = i32;`, or `u32` if it is `unsigned`. -/
def aliasing (name : String) (unsigned : Bool) : Document.Module where
  globals :=
    [some { kind := "Alias", name, type := some { kind := if unsigned then "U32" else "I32" } }]

/-- What the module is decoded to. -/
def aliased (name : String) (unsigned : Bool) : Program :=
  Builder.build { nodes := #[⟨.type (if unsigned then .u32 else .i32), {}⟩,
    ⟨.decl (.typeAlias 1 1), {}⟩]
                  symbols := SymbolTable.empty.extend name (by simp)
                  globals := [2] }

theorem decode_aliasing {name : String} (hname : name ≠ "") (unsigned : Bool) :
    (aliasing name unsigned).decode = .ok (aliased name unsigned) := by
  have hname : name.isEmpty = false := by simpa using hname
  have hregister : SymbolTable.empty.register name =
      (1, SymbolTable.empty.extend name (by simp)) := by
    rw [SymbolTable.register, dif_neg (by simp)]
    rfl
  have hmodify : ∀ {α : Type} (f : Builder → α × Builder) (b : Builder),
      (modifyGet f : Document.Decode α) b = .ok (f b).1 (f b).2 := fun _ _ => rfl
  have halias : Document.Kind.parse? "Alias" = some .typeAlias := by decide +kernel
  have hi32 : Document.Kind.parse? "I32" = some .i32 := by decide +kernel
  have hu32 : Document.Kind.parse? "U32" = some .u32 := by decide +kernel
  cases unsigned <;>
    simp [aliasing, Document.Module.decode, Document.Decode.globals, Document.Decode.required,
      Document.Decode.node, halias, hi32, hu32, Document.Decode.symbol, hname, bind, EStateM.bind,
      hmodify, Builder.register, hregister,
      Builder.push, modify, pure, EStateM.pure, Arena.size, aliased, Span.valid]

theorem text_aliased (name : String) (unsigned : Bool) :
    (aliased name unsigned).text = "alias " ++ name ++ " = " ++
    (if unsigned then "u32" else "i32") ++ ";" ++ "\n" := by
  have hglobals : (aliased name unsigned).globals = [2] := Builder.globals_build _
  have hname : (aliased name unsigned).nameOf 1 = name := rfl
  have hdecl : (aliased name unsigned).shape? 2 = some (.decl (.typeAlias 1 1)) := rfl
  have htype : (aliased name unsigned).shape? 1 = some (.type (if unsigned then .u32 else .i32)) :=
    rfl
  have hfuel : Print.fuelFor (aliased name unsigned).toArena = 18 + 2 := rfl
  rw [text, textWith, Print.declarations, hglobals, List.map_singleton,
    String.intercalate_singleton, hfuel, Print.render, Print.globalText, hdecl]
  simp only [Print.render, Print.nodeText, htype, hname]
  cases unsigned <;> rfl

/-- A name that is too long for a line hides all of the program. -/
theorem split_aliased {name : String} (hname : '\n' ∉ name.toList)
    (hlong : Lines.capacity < Lines.byteLength name.toList) (unsigned : Bool) :
    Lines.split (aliased name unsigned).text = [] := by
  rw [text_aliased, ← String.append_empty (s := _ ++ "\n")]
  refine Lines.split_eq_nil ?_ ?_
  · cases unsigned <;> simpa using hname
  · simp only [String.toList_append, Lines.byteLength_append]
    omega

/-- Two aliases of one long name stand for different types, and the difference of their modules is
empty. -/
theorem diff_empty_of_long_name : ∃ name p q,
    (aliasing name false).decode = .ok p ∧ (aliasing name true).decode = .ok q ∧
    p.text ≠ q.text ∧ ∀ title options, Patch.diff title p.text q.text options = "" := by
  have hlength : ∀ n, Lines.byteLength (String.ofList (List.replicate n 'a')).toList = n := by
    intro n
    rw [String.toList_ofList, Lines.byteLength_eq_sum, List.map_replicate, List.sum_replicate_nat]
    exact Nat.mul_one n
  have hline : ∀ n, '\n' ∉ (String.ofList (List.replicate n 'a')).toList := by
    intro n
    rw [String.toList_ofList, List.mem_replicate]
    exact fun h => absurd h.2 (by decide)
  have hlong : Lines.capacity <
      Lines.byteLength (String.ofList (List.replicate (Lines.capacity + 1) 'a')).toList := by
    rw [hlength]
    exact Nat.lt_succ_self _
  have hname : String.ofList (List.replicate (Lines.capacity + 1) 'a') ≠ "" := by
    intro h
    simp [h, Lines.byteLength] at hlong
  refine ⟨_, _, _, decode_aliasing hname false, decode_aliasing hname true, ?_,
    fun title options => ?_⟩
  · rw [text_aliased, text_aliased]
    simp
  · rw [Patch.diff_eq_empty_iff, split_aliased (hline _) hlong, split_aliased (hline _) hlong]

theorem diff_empty_iff_of_short_name :
    ∃ p q, (aliasing "A" false).decode = .ok p ∧ (aliasing "A" true).decode = .ok q ∧
    Lines.Whole p.text ∧ Lines.Whole q.text ∧ ∀ title options,
      Patch.diff title p.text q.text options ≠ "" := by
  have hp : Lines.Whole (aliased "A" false).text := by
    rw [text_aliased]
    decide +kernel
  have hq : Lines.Whole (aliased "A" true).text := by
    rw [text_aliased]
    decide +kernel
  refine ⟨_, _, decode_aliasing (by decide) false, decode_aliasing (by decide) true, hp, hq,
    fun title options h => ?_⟩
  have htext := ((diff_empty_iff title _ _ options).2 hp hq).1 h
  rw [text_aliased, text_aliased] at htext
  exact absurd htext (by decide)

end Program
end ShaderLoom
