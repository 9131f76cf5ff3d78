import ShaderLoom.Proofs.Pass.Promotion
import ShaderLoom.Proofs.Pass.Renamed
import ShaderLoom.Proofs.Pass.Unreachable

/-! What control reaches stays within reach. Where statements are made anew from what their parts
have become, with declarations put before them and headers of loops lowered, control leaves them as
it did, and it reaches all of them if it reached all of the source. -/
namespace ShaderLoom

open Hoist (Woven Header header? Tests Continued Looped LoweredLoop LoweredElse)

/-- Every statement on record can be reached. -/
def Program.Live (p : Program) : Prop :=
  ∀ (x : NodeId) s, p.facts.stmts[x]? = some s → s.reachable = true

namespace Flow

/-- Statements that hold no others and just go on. -/
def Plain (a : Arena) (ws : List NodeId) : Prop :=
  ∀ w ∈ ws, w ≠ 0 ∧ alone? (a.shape? w) = some (.only .next)

/-- What becomes of a statement: a statement of what its parts have become, or a lowered form. -/
inductive Rework (b : Arena) (R : NodeId → NodeId → Prop) (x : StmtShape NodeId) (j : NodeId) : Prop
  | parts {y : StmtShape NodeId} {before : NodeId → List NodeId} : b.shape? j = some (.stmt y) →
    (∀ i, Plain b (before i)) →
    Shape.Rel (fun _ _ : Symbol => True) R (Woven before R) (.stmt x) (.stmt y) → Rework b R x j
  | loop {l : PendingLoop} {h : Header} : header? x = some h → Plain b l.condition →
    Plain b l.continuing →
    LoweredLoop b R l h j → Rework b R x j
  | otherwise {ws : List NodeId} {c d e : NodeId} : x = .ifElse c d e → Plain b ws →
    LoweredElse b R ws c d e j → Rework b R x j

/-- The statements of the second arena are made of those of a program, in which they are of the
kinds that belong where they stand. -/
structure Reworked (p : Program) (b : Arena) (R : NodeId → NodeId → Prop) : Prop where
  fit : p.Fit
  zero : R 0 0
  absent : ∀ {i j}, R i j → (i = 0 ↔ j = 0)
  documented : ∀ {i j x}, R i j → p.shape? i = some (.stmt x) → p.Documented (.stmt x)
  shape : ∀ {i j x}, R i j → p.shape? i = some (.stmt x) → Rework b R x j

/-- A walk through a statement and one through what it has become, or the same for lists. -/
inductive Trails (b : Arena) (R : NodeId → NodeId → Prop) : Look → Look → Prop
  | one {s t} : R s t → Trails b R (.one s) (.one t)
  | all {ss ts sofar} {before : NodeId → List NodeId} : 0 ∉ ss → (∀ i, Plain b (before i)) →
    Woven before R ss ts →
    Trails b R (.all ss sofar) (.all ts sofar)

section Behaviors

theorem andThen_next {sofar : Behaviors} (h : sofar.next = true) :
    sofar.andThen (.only .next) = sofar := by
  cases sofar
  simp_all [Behaviors.andThen, Behaviors.only, Behaviors.union, Behaviors.erase, Behaviors.insert,
    Behaviors.set]

theorem andThen_only_next (b : Behaviors) : (Behaviors.only .next).andThen b = b := by
  simp [Behaviors.andThen, Behaviors.only, Behaviors.union, Behaviors.erase, Behaviors.insert,
    Behaviors.set]

/-- A body after a test that leaves the loop does what the body of a loop with a condition does. -/
theorem ofLoop_tested (b : Behaviors) :
    (((Behaviors.only .brk).union (.only .next)).andThen b).ofLoop false = b.ofLoop true := by
  simp [Behaviors.ofLoop, Behaviors.andThen, Behaviors.only, Behaviors.union, Behaviors.erase,
    Behaviors.insert, Behaviors.set]

end Behaviors

section Lists

variable {a : Arena} {b : Behaviors} {ms : List Mark}

theorem Visit.of_alone {s : NodeId} {live : Bool} {x : Behaviors} (h : Visit a (.one s) live b ms)
    (h0 : s ≠ 0) (hs : alone? (a.shape? s) = some x) : b = x ∧ ms = [⟨s, live, x⟩] := by
  obtain ⟨inner, rfl, hin⟩ := h.within h0
  have hx : b = x ∧ inner = [] := by
    unfold Within at hin
    split at hin <;> simp_all [alone?]
  exact ⟨hx.1, by rw [hx.1, hx.2]⟩

/-- Plain statements change nothing for those behind them, and are reached if anything before them
lets control go on. -/
theorem Visit.after_plain {ws ts : List NodeId} {sofar : Behaviors} (hws : Plain a ws)
    (hnext : sofar.next = true) (h : Visit a (.all (ws ++ ts) sofar) true b ms) :
    ∃ front ms', ms = front ++ ms' ∧ (∀ m ∈ front, m.live = true) ∧
      Visit a (.all ts sofar) true b ms' := by
  induction ws generalizing ms with
  | nil => exact ⟨[], ms, rfl, by simp, h⟩
  | cons w ws ih =>
    cases h with
    | next hw hrest =>
      obtain ⟨h0, hs⟩ := hws w List.mem_cons_self
      rw [hnext, Bool.and_true] at hw hrest
      obtain ⟨rfl, rfl⟩ := hw.of_alone h0 hs
      rw [if_pos rfl, andThen_next hnext] at hrest
      obtain ⟨front, ms', rfl, hfront, hv⟩ :=
        ih (fun w hw => hws w (List.mem_cons_of_mem _ hw)) hrest
      refine ⟨_ :: front, ms', rfl, fun m hm => ?_, hv⟩
      rcases List.mem_cons.1 hm with rfl | hm
      · rfl
      · exact hfront m hm

/-- The walk through a block is the walk through its statements. -/
theorem Visit.of_block {s : NodeId} {ss : List NodeId} {live : Bool}
    (h : Visit a (.one s) live b ms) (hs : a.shape? s = some (.stmt (.block ss))) :
    ∃ inner, ms = ⟨s, live, b⟩ :: inner ∧ Visit a (.all ss (.only .next)) live b inner := by
  obtain ⟨inner, hms, hin⟩ := h.within (Arena.ne_zero_of_shape hs)
  rw [hs] at hin
  exact ⟨inner, hms, hin⟩

/-- The walk through a list of one statement that is reached. -/
theorem Visit.last {s : NodeId} {sofar : Behaviors} (hnext : sofar.next = true)
    (h : Visit a (.all [s] sofar) true b ms) :
    ∃ b', Visit a (.one s) true b' ms ∧ b = sofar.andThen b' := by
  cases h with
  | next hs hrest =>
    rw [hnext, Bool.and_true] at hs hrest
    cases hrest
    exact ⟨_, by simpa using hs, rfl⟩

end Lists

section Lowered

variable {p : Program} {b : Arena} {R : NodeId → NodeId → Prop}

/-- The test of a loop and the body behind it. -/
theorem Visit.of_tests {c inner : NodeId} {tests : List NodeId} {bs : Behaviors} {ms : List Mark}
    (h : Tests b R c tests) (hv : Visit b (.all (tests ++ [inner]) (.only .next)) true bs ms) :
    ∃ b' front ms', ms = front ++ ms' ∧ (∀ m ∈ front, m.live = true) ∧
      Visit b (.one inner) true b' ms' ∧
      bs.ofLoop false = b'.ofLoop (c ≠ 0) := by
  cases h with
  | none hc =>
    obtain ⟨b', hv', rfl⟩ := Visit.last rfl hv
    refine ⟨b', [], ms, rfl, by simp, hv', ?_⟩
    rw [andThen_only_next]
    simp [hc]
  | @test c' negated leave body test hc _ _ hleave hbody htest =>
    cases hv with
    | next ht hrest =>
      obtain ⟨marks, rfl, hin⟩ := ht.within (Arena.ne_zero_of_shape htest)
      rw [htest] at hin
      obtain ⟨b₁, b₂, m₁, m₂, hv₁, hv₂, rfl, rfl⟩ := hin
      obtain ⟨rfl, rfl⟩ := hv₂.zero
      obtain ⟨inside, rfl, hin⟩ := hv₁.of_block hbody
      obtain ⟨b₃, hv₃, rfl⟩ := Visit.last rfl hin
      obtain ⟨rfl, rfl⟩ := hv₃.of_alone (Arena.ne_zero_of_shape hleave) (by rw [hleave]; rfl)
      have hsofar : (Behaviors.only .next).andThen
          (((Behaviors.only .next).andThen (.only .brk)).union (.only .next)) =
          (Behaviors.only .brk).union (.only .next) := rfl
      simp only [show (true && (Behaviors.only .next).next) = true from rfl, if_true, hsofar]
        at hrest
      obtain ⟨b', hv', rfl⟩ := Visit.last rfl hrest
      refine ⟨b', _, _, rfl, ?_, hv', ?_⟩
      · simp [Behaviors.only, Behaviors.insert, Behaviors.set]
      · rw [ofLoop_tested]
        simp [hc]

/-- The parts of a loop without a header. -/
theorem Visit.of_looped (hR : R 0 0) {l : PendingLoop} {h : Header} {j : NodeId}
    (hl : Looped b R l h j) (hcondition : Plain b l.condition) (hcontinuing : Plain b l.continuing)
    {bs : Behaviors} {ms : List Mark} (hv : Visit b (.one j) true bs ms) :
    ∃ inner last b₁ b₂ m₁ m₂, R h.body inner ∧ Visit b (.one inner) true b₁ m₁ ∧
      R h.continuing last ∧ Visit b (.one last) true b₂ m₂ ∧ bs = b₁.ofLoop (h.condition ≠ 0) ∧
      ∀ m ∈ ms, m.live = true ∨ m ∈ m₁ ∨ m ∈ m₂ := by
  cases hl with
  | @loop tests inner whole k _ htests hinner hwhole hk hj =>
    obtain ⟨marks, rfl, hin⟩ := hv.within (Arena.ne_zero_of_shape hj)
    rw [hj] at hin
    rcases hin with ⟨_, b₁, b₂, m₁, m₂, hv₁, hv₂, rfl, rfl⟩ | ⟨hnone, _⟩
    · obtain ⟨m₁, rfl, hall⟩ := hv₁.of_block hwhole
      rw [List.append_assoc] at hall
      obtain ⟨front, m₁, rfl, hfront, hall⟩ := hall.after_plain hcondition rfl
      obtain ⟨b₁, test, m₁, rfl, htest, hv₁, hb⟩ := Visit.of_tests htests hall
      obtain ⟨last, b₃, m₃, hlast, hv₃, hm₃⟩ : ∃ last b₃ m₃, R h.continuing last ∧
          Visit b (.one last) true b₃ m₃ ∧
          ∀ m ∈ m₂, m.live = true ∨ m ∈ m₃ := by
        cases hk with
        | none h0 => exact ⟨0, _, _, h0 ▸ hR, hv₂, fun m hm => .inr hm⟩
        | @block last _ h0 hlast hblock =>
          obtain ⟨m₂, rfl, hall⟩ := hv₂.of_block hblock
          obtain ⟨before, m₃, rfl, hbefore, hall⟩ := hall.after_plain hcontinuing rfl
          obtain ⟨b₃, hv₃, _⟩ := Visit.last rfl hall
          refine ⟨last, b₃, m₃, hlast, hv₃, fun m hm => ?_⟩
          rcases List.mem_cons.1 hm with rfl | hm
          · exact .inl rfl
          · exact (List.mem_append.1 hm).imp_left (hbefore m)
      refine ⟨inner, last, b₁, b₃, m₁, m₃, hinner, hv₁, hlast, hv₃, hb, fun m hm => ?_⟩
      simp only [List.mem_cons, List.mem_append] at hm
      rcases hm with rfl | (rfl | hm | hm | hm) | hm
      · exact .inl rfl
      · exact .inl rfl
      · exact .inl (hfront m hm)
      · exact .inl (htest m hm)
      · exact .inr (.inl hm)
      · exact (hm₃ m hm).imp_right .inr
    · exact absurd (by simp [Arena.isBlock, Arena.block?, hwhole, Shape.block?]) hnone

/-- The parts of a lowered loop. The loop is reached because its initializer lets control go on. -/
theorem Visit.of_lowered (hR : R 0 0) {l : PendingLoop} {h : Header} {j : NodeId}
    (hl : LoweredLoop b R l h j) (hcondition : Plain b l.condition)
    (hcontinuing : Plain b l.continuing)
    (hinit : ∀ first bs ms, R h.init first → Visit b (.one first) true bs ms → bs = .only .next)
    {bs : Behaviors} {ms : List Mark} (hv : Visit b (.one j) true bs ms) :
    ∃ first inner last b₁ b₂ b₃ m₁ m₂ m₃, R h.init first ∧
      Visit b (.one first) true b₁ m₁ ∧ R h.body inner ∧ Visit b (.one inner) true b₂ m₂ ∧
      R h.continuing last ∧
      Visit b (.one last) true b₃ m₃ ∧ bs = b₂.ofLoop (h.condition ≠ 0) ∧
      ∀ m ∈ ms, m.live = true ∨ m ∈ m₁ ∨ m ∈ m₂ ∨ m ∈ m₃ := by
  cases hl with
  | bare h0 hl =>
    obtain ⟨inner, last, b₂, b₃, m₂, m₃, hinner, hv₂, hlast, hv₃, hb, hm⟩ :=
      hv.of_looped hR hl hcondition hcontinuing
    exact ⟨0, inner, last, _, b₂, b₃, [], m₂, m₃, h0 ▸ hR, .absent, hinner, hv₂, hlast, hv₃,
      hb, fun m hmem =>
      (hm m hmem).imp_right .inr⟩
  | @after first loop _ _ hfirst hl hj =>
    obtain ⟨marks, rfl, hall⟩ := hv.of_block hj
    cases hall with
    | next hv₁ hrest =>
      obtain rfl := hinit _ _ _ hfirst hv₁
      simp only [show (true && (Behaviors.only .next).next) = true from rfl, if_true,
        andThen_only_next] at hrest
      obtain ⟨b', hloop, rfl⟩ := Visit.last rfl hrest
      obtain ⟨inner, last, b₂, b₃, m₂, m₃, hinner, hv₂, hlast, hv₃, hb, hm⟩ :=
        hloop.of_looped hR hl hcondition hcontinuing
      refine ⟨first, inner, last, _, b₂, b₃, _, m₂, m₃, hfirst, hv₁, hinner, hv₂, hlast, hv₃, ?_,
        fun m hmem => ?_⟩
      · rw [andThen_only_next, hb]
      · rcases List.mem_cons.1 hmem with rfl | hmem
        · exact .inl rfl
        · rcases List.mem_append.1 hmem with hmem | hmem
          · exact .inr (.inl hmem)
          · exact (hm m hmem).imp_right .inr

/-- The parts of a conditional that was put into a block. -/
theorem Visit.of_loweredElse {ws : List NodeId} {c d e j : NodeId} (hl : LoweredElse b R ws c d e j)
    (hws : Plain b ws) {bs : Behaviors} {ms : List Mark} (hv : Visit b (.one j) true bs ms) :
    ∃ d' e' b₁ b₂ m₁ m₂, R d d' ∧
      Visit b (.one d') true b₁ m₁ ∧ R e e' ∧ Visit b (.one e') true b₂ m₂ ∧ bs = b₁.union b₂ ∧
      ∀ m ∈ ms, m.live = true ∨ m ∈ m₁ ∨ m ∈ m₂ := by
  cases hl with
  | @block c' d' e' inner _ _ hd he hinner hj =>
    obtain ⟨marks, rfl, hall⟩ := hv.of_block hj
    obtain ⟨front, ms, rfl, hfront, hall⟩ := hall.after_plain hws rfl
    obtain ⟨b', hv', rfl⟩ := Visit.last rfl hall
    obtain ⟨marks, rfl, hin⟩ := hv'.within (Arena.ne_zero_of_shape hinner)
    rw [hinner] at hin
    obtain ⟨b₁, b₂, m₁, m₂, hv₁, hv₂, rfl, rfl⟩ := hin
    refine ⟨d', e', b₁, b₂, m₁, m₂, hd, hv₁, he, hv₂, andThen_only_next _, fun m hm => ?_⟩
    simp only [List.mem_cons, List.mem_append] at hm
    rcases hm with rfl | hm | rfl | hm | hm
    · exact .inl rfl
    · exact .inl (hfront m hm)
    · exact .inl rfl
    · exact .inr (.inl hm)
    · exact .inr (.inr hm)

end Lowered

section Walk

variable {p : Program} {b : Arena} {R : NodeId → NodeId → Prop}

/-- What is noted of a statement and of all that is in it. -/
theorem live_cons {m : Mark} {ms : List Mark} (hm : m.live = true) (h : ∀ m ∈ ms, m.live = true) :
    ∀ m' ∈ m :: ms, m'.live = true := by
  rintro m' hm'
  rcases List.mem_cons.1 hm' with rfl | hm'
  exacts [hm, h m' hm']

theorem Reworked.block (hR : Reworked p b R) {i j : NodeId} {ss : List NodeId} (hij : R i j)
    (hi : p.shape? i = some (.stmt (.block ss))) :
    0 ∉ ss ∧ ∃ ts before, b.shape? j = some (.stmt (.block ts)) ∧
      (∀ i, Plain b (before i)) ∧ Woven before R ss ts := by
  obtain ⟨n, hn, hs⟩ := Option.map_eq_some_iff.1 hi
  refine ⟨fun h0 => hR.fit.present hn 0 (by simpa [hs, Shape.required, Shape.slots] using h0) rfl,
    ?_⟩
  cases hR.shape hij hi with
  | parts hj hbefore hrel =>
    cases hrel with
    | block hl => exact ⟨_, _, hj, hbefore, hl⟩
  | loop hx => cases hx
  | otherwise hx => cases hx

theorem Reworked.isBlock (hR : Reworked p b R) {i j : NodeId} (hij : R i j) (hi : p.isBlock i) :
    b.isBlock j := by
  obtain ⟨ss, hss⟩ := Option.isSome_iff_exists.1 hi
  obtain ⟨_, ts, _, hj, _⟩ := hR.block hij (Arena.shape?_of_block? hss)
  simp [Arena.isBlock, Arena.block?, hj, Shape.block?]

/-- A statement that holds no others becomes one that control leaves in the same way. -/
theorem Reworked.alone (hR : Reworked p b R) {i j : NodeId} (hij : R i j) {x : StmtShape NodeId}
    (hi : p.shape? i = some (.stmt x)) {bs : Behaviors} (hx : alone? (some (.stmt x)) = some bs) :
    alone? (b.shape? j) = some bs := by
  cases hR.shape hij hi with
  | parts hj _ hrel => rw [hj, alone_rel hrel, hx]
  | loop hheader => cases x <;> simp_all [header?, alone?]
  | otherwise hx' =>
    subst hx'
    cases hx

/-- The statement before a loop lets control go on. -/
theorem Visit.of_init {i c k d : NodeId} {live : Bool}
    (htidy : p.Documented (.stmt (.forLoop i c k d))) {bs : Behaviors} {ms : List Mark}
    (hv : Visit p.toArena (.one i) live bs ms) : bs = .only .next := by
  by_cases h0 : i = 0
  · subst h0
    exact hv.zero.1
  · obtain ⟨x, hx, hsimple⟩ := htidy.1.resolve_left h0
    refine (hv.of_alone h0 (x := .only .next) ?_).1
    rw [hx]
    cases x <;> first | rfl | exact hsimple.elim

/-- A walk through what a statement has become does what the walk through the statement does. If
that reached all it came to, so does the other one. -/
theorem Visit.reworked (hR : Reworked p b R) {look look' : Look} {live : Bool} {bs : Behaviors}
    {ms : List Mark} (h : Visit p.toArena look live bs ms) (hlive : live = true)
    (hms : ∀ m ∈ ms, m.live = true ∧ (p.shape? m.node).any Shape.isStatement = true)
    (hm : Trails b R look look') {bs' : Behaviors} {ms' : List Mark}
    (h' : Visit b look' true bs' ms') : bs' = bs ∧ ∀ m ∈ ms', m.live = true := by
  induction h generalizing look' bs' ms' with
  | absent =>
    cases hm with
    | one hst =>
      obtain rfl := (hR.absent hst).1 rfl
      obtain ⟨rfl, rfl⟩ := h'.zero
      exact ⟨rfl, by simp⟩
  | @alone s live bs h0 hs =>
    cases hm with
    | @one _ t hst =>
      obtain ⟨_, hstmt⟩ := hms _ List.mem_cons_self
      obtain ⟨x, hx, hxs⟩ := (Option.any_eq_true ..).1 hstmt
      cases x <;> cases hxs
      rw [hx] at hs
      obtain ⟨rfl, rfl⟩ := h'.of_alone (fun h => h0 ((hR.absent hst).2 h)) (hR.alone hst hx hs)
      exact ⟨rfl, live_cons rfl (by simp)⟩
  | @block s ss live bs ms hs hv ih =>
    cases hm with
    | @one _ t hst =>
      obtain ⟨h0, ts, before, ht, hbefore, hl⟩ := hR.block hst hs
      obtain ⟨inner, rfl, hall⟩ := h'.of_block ht
      obtain ⟨rfl, hlive'⟩ :=
        ih hlive (fun m hm => hms m (List.mem_cons_of_mem _ hm)) (.all h0 hbefore hl) hall
      exact ⟨rfl, live_cons rfl hlive'⟩
  | @ifElse s c d o live b₁ b₂ m₁ m₂ hs hv₁ hv₂ ih₁ ih₂ =>
    cases hm with
    | @one _ t hst =>
      obtain ⟨h₁, h₂⟩ := List.forall_mem_append.1 fun m hm => hms m (List.mem_cons_of_mem _ hm)
      cases hR.shape hst hs with
      | parts ht _ hrel =>
        obtain ⟨inner, rfl, hin⟩ := h'.within (Arena.ne_zero_of_shape ht)
        rw [ht] at hin
        cases hrel with
        | ifElse _ hd ho =>
          obtain ⟨b₁', b₂', m₁', m₂', hv₁', hv₂', rfl, rfl⟩ := hin
          obtain ⟨rfl, hl₁⟩ := ih₁ hlive h₁ (.one hd) hv₁'
          obtain ⟨rfl, hl₂⟩ := ih₂ hlive h₂ (.one ho) hv₂'
          exact ⟨rfl, live_cons rfl (List.forall_mem_append.2 ⟨hl₁, hl₂⟩)⟩
      | loop hx => cases hx
      | otherwise hx hws hl =>
        cases hx
        obtain ⟨d', e', b₁', b₂', m₁', m₂', hd, hv₁', he, hv₂', rfl, hcases⟩ :=
          h'.of_loweredElse hl hws
        obtain ⟨rfl, hl₁⟩ := ih₁ hlive h₁ (.one hd) hv₁'
        obtain ⟨rfl, hl₂⟩ := ih₂ hlive h₂ (.one he) hv₂'
        exact ⟨rfl, fun m hm => (hcases m hm).elim id fun h => h.elim (hl₁ m) (hl₂ m)⟩
  | @forLoop s i c k d live b₁ b₂ b₃ m₁ m₂ m₃ hs hv₁ hv₂ hv₃ ih₁ ih₂ ih₃ =>
    cases hm with
    | @one _ t hst =>
      obtain ⟨h₁₂, h₃⟩ := List.forall_mem_append.1 fun m hm => hms m (List.mem_cons_of_mem _ hm)
      obtain ⟨h₁, h₂⟩ := List.forall_mem_append.1 h₁₂
      cases hR.shape hst hs with
      | parts ht _ hrel =>
        obtain ⟨inner, rfl, hin⟩ := h'.within (Arena.ne_zero_of_shape ht)
        rw [ht] at hin
        cases hrel with
        | @forLoop _ _ _ c' _ _ _ _ hi hc hk hd =>
          obtain ⟨b₁', b₂', b₃', m₁', m₂', m₃', hv₁', hv₂', hv₃', rfl, rfl⟩ := hin
          obtain ⟨-, hl₁⟩ := ih₁ hlive h₁ (.one hi) hv₁'
          obtain ⟨rfl, hl₂⟩ := ih₂ hlive h₂ (.one hd) hv₂'
          obtain ⟨-, hl₃⟩ := ih₃ hlive h₃ (.one hk) hv₃'
          have hcond : decide (c' ≠ 0) = decide (c ≠ 0) :=
            decide_eq_decide.2 (not_congr (hR.absent hc)).symm
          exact ⟨by rw [hcond], live_cons rfl (List.forall_mem_append.2
            ⟨List.forall_mem_append.2 ⟨hl₁, hl₂⟩, hl₃⟩)⟩
      | loop hx hcondition hcontinuing hl =>
        cases hx
        have hinit : ∀ first bs ms, R i first → Visit b (.one first) true bs ms →
            bs = .only .next := fun first bs ms hf hv =>
          (ih₁ hlive h₁ (.one hf) hv).1.trans (hv₁.of_init (hR.documented hst hs))
        obtain ⟨first, inner, last, b₁', b₂', b₃', m₁', m₂', m₃', hf, hv₁', hd, hv₂', hk, hv₃',
          rfl, hcases⟩ :=
          h'.of_lowered hR.zero hl hcondition hcontinuing hinit
        obtain ⟨-, hl₁⟩ := ih₁ hlive h₁ (.one hf) hv₁'
        obtain ⟨rfl, hl₂⟩ := ih₂ hlive h₂ (.one hd) hv₂'
        obtain ⟨-, hl₃⟩ := ih₃ hlive h₃ (.one hk) hv₃'
        exact ⟨rfl, fun m hm => (hcases m hm).elim id fun h =>
          h.elim (hl₁ m) fun h => h.elim (hl₂ m) (hl₃ m)⟩
      | otherwise hx => cases hx
  | @whileLoop s c d live b₁ m₁ hs hv₁ ih₁ =>
    cases hm with
    | @one _ t hst =>
      have h₁ := fun m hm => hms m (List.mem_cons_of_mem _ hm)
      cases hR.shape hst hs with
      | parts ht _ hrel =>
        obtain ⟨inner, rfl, hin⟩ := h'.within (Arena.ne_zero_of_shape ht)
        rw [ht] at hin
        cases hrel with
        | whileLoop _ hd =>
          obtain ⟨b₁', hv₁', rfl⟩ := hin
          obtain ⟨rfl, hl₁⟩ := ih₁ hlive h₁ (.one hd) hv₁'
          exact ⟨rfl, live_cons rfl hl₁⟩
      | loop hx hcondition hcontinuing hl =>
        cases hx
        have hzero : ∀ {j bs ms}, R 0 j → Visit b (.one j) true bs ms → bs = .only .next ∧
            ms = [] := fun hj hv => by
          obtain rfl := (hR.absent hj).1 rfl
          exact hv.zero
        obtain ⟨first, inner, last, b₁', b₂', b₃', m₁', m₂', m₃', hf, hv₁', hd, hv₂', hk, hv₃',
          rfl, hcases⟩ :=
          h'.of_lowered hR.zero hl hcondition hcontinuing fun first bs ms hf hv => (hzero hf hv).1
        obtain ⟨-, rfl⟩ := hzero hf hv₁'
        obtain ⟨-, rfl⟩ := hzero hk hv₃'
        obtain ⟨rfl, hl₂⟩ := ih₁ hlive h₁ (.one hd) hv₂'
        have hc : c ≠ 0 := by
          obtain ⟨n, hn, hshape⟩ := Option.map_eq_some_iff.1 hs
          exact hR.fit.present hn c (by simp [hshape, Shape.required, Shape.slots])
        refine ⟨by simp [hc], fun m hm => ?_⟩
        have hm' : m.live = true ∨ m ∈ m₂' := by simpa using hcases m hm
        exact hm'.elim id (hl₂ m)
      | otherwise hx => cases hx
  | @loop s d k live b₁ b₂ m₁ m₂ hs hblock hv₁ hv₂ ih₁ ih₂ =>
    cases hm with
    | @one _ t hst =>
      obtain ⟨h₁, h₂⟩ := List.forall_mem_append.1 fun m hm => hms m (List.mem_cons_of_mem _ hm)
      cases hR.shape hst hs with
      | parts ht _ hrel =>
        obtain ⟨inner, rfl, hin⟩ := h'.within (Arena.ne_zero_of_shape ht)
        rw [ht] at hin
        cases hrel with
        | loop hd hk =>
          rcases hin with ⟨_, b₁', b₂', m₁', m₂', hv₁', hv₂', rfl, rfl⟩ | ⟨hnone, _⟩
          · obtain ⟨rfl, hl₁⟩ := ih₁ hlive h₁ (.one hd) hv₁'
            obtain ⟨-, hl₂⟩ := ih₂ hlive h₂ (.one hk) hv₂'
            exact ⟨rfl, live_cons rfl (List.forall_mem_append.2 ⟨hl₁, hl₂⟩)⟩
          · exact absurd (hR.isBlock hd hblock) hnone
      | loop hx => cases hx
      | otherwise hx => cases hx
  | closing hs hblock =>
    cases hm with
    | one hst => exact absurd (hR.documented hst hs).1 hblock
  | done =>
    cases hm with
    | all _ _ hl =>
      cases hl
      cases h'
      exact ⟨rfl, by simp⟩
  | @next s ss sofar live b₁ b₂ m₁ m₂ hv₁ hv₂ ih₁ ih₂ =>
    subst hlive
    obtain ⟨h₁, h₂⟩ := List.forall_mem_append.1 hms
    cases hm with
    | all h0 hbefore hl =>
      obtain ⟨hs0, hss0⟩ := not_or.1 (mt List.mem_cons.2 h0)
      -- the statement was reached, so what is before it lets control go on
      obtain ⟨inner, rfl, _⟩ := hv₁.within (Ne.symm hs0)
      have hnext : sofar.next = true := by simpa using (h₁ _ List.mem_cons_self).1
      cases hl with
      | cons hst hl =>
        obtain ⟨front, ms'', rfl, hfront, hall⟩ := h'.after_plain (hbefore s) hnext
        cases hall with
        | next hv₁' hv₂' =>
          rw [hnext, Bool.and_true] at hv₁' hv₂'
          obtain ⟨rfl, hl₁⟩ := ih₁ (by simp [hnext]) h₁ (.one hst) hv₁'
          rw [hnext, Bool.and_true] at ih₂
          obtain ⟨rfl, hl₂⟩ := ih₂ rfl h₂ (.all hss0 hbefore hl) hv₂'
          exact ⟨rfl, List.forall_mem_append.2 ⟨hfront, List.forall_mem_append.2 ⟨hl₁, hl₂⟩⟩⟩

end Walk

end Flow

section Programs

open ShaderLoom.Flow

variable {b b' : Builder} {R : NodeId → NodeId → Prop}

/-- Where bodies of functions are made of bodies, control reaches all of the second program if it
reaches all of the first. -/
theorem Flow.Reworked.live (hR : Reworked b.build b'.build.toArena R) (hv : b.build.valid = true)
    (hv' : b'.build.valid = true) (ht : b.build.TreeShaped) (ht' : b'.build.TreeShaped)
    (hbodies : ∀ g' ∈ b'.build.globals, ∀ f', b'.build.function? g' = some f' →
      ∃ g ∈ b.build.globals, ∃ f, b.build.function? g = some f ∧ R f.body f'.body)
    (hlive : b.build.Live) : b'.build.Live := by
  intro x s hx
  obtain ⟨notes, hnotes⟩ := Resolve.recounts_build (Program.hasErrors_of_valid hv) ht
  obtain ⟨notes', hnotes'⟩ := Resolve.recounts_build (Program.hasErrors_of_valid hv') ht'
  obtain ⟨g', hg', hf', m', hm', rfl⟩ : ∃ g' ∈ b'.build.globals, (b'.build.function? g').isSome ∧
      ∃ m ∈ (notes' g').2, m.node = x := by
    by_contra hnone
    push Not at hnone
    rw [hnotes'.only x fun g hg hf m hm => hnone g hg hf m hm] at hx
    cases hx
  obtain ⟨f', hf'⟩ := Option.isSome_iff_exists.1 hf'
  obtain ⟨g, hg, f, hf, hbody⟩ := hbodies g' hg' f' hf'
  have hms : ∀ m ∈ (notes g).2,
      m.live = true ∧ (b.build.shape? m.node).any Shape.isStatement = true := by
    intro m hm
    obtain ⟨fn, hfn⟩ := hnotes.noted g hg (by simp [hf]) m hm
    exact ⟨hlive _ _ hfn, Resolve.proper_build hv (by simp [hfn])⟩
  obtain ⟨-, hlive'⟩ :=
    (hnotes.visit g hg f hf).reworked hR rfl hms (.one hbody) (hnotes'.visit g' hg' f' hf')
  obtain ⟨fn, hfn⟩ := hnotes'.noted g' hg' (by simp [hf']) m' hm'
  cases hx.symm.trans hfn
  exact hlive' m' hm'

/-- A list from which nothing is gone has its elements one by one. -/
theorem woven_of_comeLists {origin : NodeId → NodeId} {xs ys : List NodeId}
    (h : Program.ComeLists (fun _ => False) origin xs ys) :
    Woven (fun _ => []) (Program.Comes origin) xs ys := by
  induction h with
  | nil => exact .nil
  | insert hy => exact hy.elim
  | keep _ hxy _ ih => exact .cons hxy ih
  | drop hx => exact hx.elim

/-- A renamed program is made of the program without anything put in. -/
theorem Rename.Renames.reworked {p q : Program} {config : RenameConfig}
    {symbols : List (Symbol × Symbol)} {origin : NodeId → NodeId}
    (h : Renames p config symbols origin q) (htidy : p.Tidy) :
    Reworked p q.toArena (Program.Comes origin) where
  fit := h.fit
  zero := .inl ⟨rfl, rfl⟩
  absent := by
    rintro i j (⟨rfl, rfl⟩ | ⟨h0, rfl⟩)
    · exact Iff.rfl
    · exact iff_of_false h0 (h.echoes.present h0)
  documented {i j x} hij hx := by
    obtain ⟨h0, rfl⟩ := hij.resolve_left fun hz => Arena.ne_zero_of_shape hx hz.1
    exact htidy _ _ (h.echoes.node j h0).1 hx
  shape {i j x} hij hx := by
    obtain ⟨h0, rfl⟩ := hij.resolve_left fun hz => Arena.ne_zero_of_shape hx hz.1
    obtain ⟨_, n, m, hn, hm, hrel⟩ := h.echoes.node j h0
    have hs : n.shape = .stmt x := Option.some.inj ((Arena.shape?_of_node? hn).symm.trans hx)
    rw [hs] at hrel
    obtain ⟨y, hy⟩ := hrel.stmt
    rw [hy] at hrel
    have hbefore : ∀ i, Plain q.toArena ((fun _ => [] : NodeId → List NodeId) i) :=
      fun _ _ hw => absurd hw List.not_mem_nil
    exact .parts (hy ▸ Arena.shape?_of_node? hm) hbefore
      (hrel.mono (fun _ _ _ => trivial) (fun _ _ h => h) fun _ _ => woven_of_comeLists)

end Programs

namespace Hoist.Hoisted

open ShaderLoom.Flow

variable {p : Program} {ms : List Moved} {b : Builder} {origin : NodeId → NodeId}
    (h : Hoisted p ms b origin)
include h

/-- Declarations that were put in just go on. -/
theorem plain_declaredAt (x : Place) : Plain b.build.toArena (declaredAt p ms x) := by
  intro w hw
  obtain ⟨m, hm, _, rfl⟩ := mem_declaredAt.1 hw
  have hs := Builder.shape?_build_of (h.made m hm).stmt
  exact ⟨Arena.ne_zero_of_shape hs, by rw [hs]; rfl⟩

/-- A program that hoisting makes is made of the program with declarations put in. -/
theorem reworked (hp : p.Fit) (htidy : p.Tidy) :
    Reworked p b.build.toArena (Comes ms b.toArena origin) where
  fit := hp
  zero := .inl ⟨rfl, rfl⟩
  absent := by
    rintro i j (⟨rfl, rfl⟩ | ⟨h0, he, _⟩)
    · exact Iff.rfl
    · exact iff_of_false h0 (h.ne_zero_of_origin he h0)
  documented {i j x} hij hx := by
    obtain ⟨h0, rfl, _⟩ := hij.resolve_left fun hz => Arena.ne_zero_of_shape hx hz.1
    exact htidy _ _ (h.traced j h0).1 hx
  shape {i j x} hij hx := by
    obtain ⟨h0, he, _⟩ := hij.resolve_left fun hz => Arena.ne_zero_of_shape hx hz.1
    have hb : ∀ {k s}, b.toArena.shape? k = some s → b.build.toArena.shape? k = some s :=
      Builder.shape?_build_of
    have hrecast := (h.traced j (he ▸ h0)).2.2
    rw [he] at hrecast
    cases hrecast with
    | @parts _ _ n m _ _ hn hm _ hrel =>
      have hs : n.shape = .stmt x := Option.some.inj ((Arena.shape?_of_node? hn).symm.trans hx)
      rw [hs] at hrel
      obtain ⟨y, hy⟩ := hrel.stmt
      rw [hy] at hrel
      exact .parts (hb (hy ▸ Arena.shape?_of_node? hm)) (fun i => h.plain_declaredAt (.before i))
        (hrel.mono (fun _ _ _ => trivial) (fun _ _ h => h) fun _ _ h => h)
    | @reference m _ hm _ =>
      have hplain := h.plain m.expr ⟨m, hm, .self⟩
      simp [Arena.NoStatement, hx, Shape.isStatement] at hplain
    | @loop _ x' _ _ _ hs hheader hl =>
      cases hx.symm.trans hs
      exact .loop hheader (h.plain_declaredAt _) (h.plain_declaredAt _) (hl.mono hb fun _ _ h => h)
    | otherwise _ hs hl =>
      cases hx.symm.trans hs
      exact .otherwise rfl (h.plain_declaredAt _) (hl.mono hb fun _ _ h => h)

/-- The bodies of functions come from bodies of functions. -/
theorem bodies (hp : p.Fit) {g' : NodeId} (hg' : g' ∈ b.build.globals)
    {f' : FunctionShape Symbol NodeId} (hf' : b.build.function? g' = some f') :
    ∃ g ∈ p.globals, ∃ f, p.function? g = some f ∧ Comes ms b.toArena origin f.body f'.body := by
  rw [Builder.globals_build] at hg'
  obtain ⟨g, hg, hgg⟩ := Document.exists_of_forall₂ h.globals g' hg'
  obtain ⟨h0, he, _⟩ := hgg.resolve_left fun hz => Nat.ne_of_gt (hp.globals g hg).1 hz.1
  have hs : b.shape? g' = some (.decl (.function f')) :=
    h.shape?_of_build (he ▸ h0) (Arena.shape?_of_function? hf')
  have hrecast := (h.traced g' (he ▸ h0)).2.2
  rw [he] at hrecast
  obtain ⟨_, _, _, hcomes⟩ | ⟨y, hy, hrel⟩ := hrecast.cases_of_not_stmt hs rfl
  · cases hcomes
  · cases hrel with
    | function _ _ _ hbody _ _ => exact ⟨g, hg, _, by rw [Arena.function?, hy]; rfl, hbody⟩

end Hoist.Hoisted

end ShaderLoom
