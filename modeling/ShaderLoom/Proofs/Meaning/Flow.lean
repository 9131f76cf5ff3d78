import ShaderLoom.Meaning.Facts
import ShaderLoom.Proofs.TreeShape

/-! How control runs through statements. A run of a statement executes statements, itself first, and
ends in one of several ways; conditions may come out either way whenever they are evaluated. A run
may also be looked at before it has ended, so that a run without an end is known by its
beginnings. -/
namespace ShaderLoom.Flow

/-- How a run ends, or that it is still on its way. -/
inductive Exit where
  | next | brk | cont | ret | discard
  | running
  deriving DecidableEq, Repr

/-- Nothing of the same loop is run after such an end. -/
def Exit.leaves : Exit → Prop
  | .ret | .discard | .running => True
  | _ => False

/-- After such an end of its body a loop goes on to what closes the turn. -/
def Exit.closes : Exit → Prop
  | .next | .cont => True
  | _ => False

/-- What is run: one statement, statements in order, the turns of a loop from now on, or what closes
a turn. -/
inductive Task where
  | one (s : NodeId)
  | all (ss : List NodeId)
  | turns (conditional : Bool) (body continuing : NodeId)
  | closing (continuing : NodeId)

/-- The task may execute these statements in this order and then end this way. An absent statement
does nothing. -/
inductive Run (a : Arena) : Task → List NodeId → Exit → Prop
  | absent : Run a (.one 0) [] .next
  | begun {s x} : a.shape? s = some (.stmt x) → Run a (.one s) [s] .running
  | simple {s} : a.isSimple s → Run a (.one s) [s] .next
  | block {s ss t e} : a.shape? s = some (.stmt (.block ss)) → Run a (.all ss) t e →
    Run a (.one s) (s :: t) e
  | thenBranch {s c b o t e} : a.shape? s = some (.stmt (.ifElse c b o)) → Run a (.one b) t e →
    Run a (.one s) (s :: t) e
  | elseBranch {s c b o t e} : a.shape? s = some (.stmt (.ifElse c b o)) → Run a (.one o) t e →
    Run a (.one s) (s :: t) e
  | whileLoop {s c b t e} : a.shape? s = some (.stmt (.whileLoop c b)) →
    Run a (.turns true b 0) t e →
    Run a (.one s) (s :: t) e
  | loop {s b k t e} : a.shape? s = some (.stmt (.loop b k)) → Run a (.turns false b k) t e →
    Run a (.one s) (s :: t) e
  | forLoop {s i c k b t t' e} : a.shape? s = some (.stmt (.forLoop i c k b)) →
    Run a (.one i) t .next →
    Run a (.turns (c ≠ 0) b k) t' e → Run a (.one s) (s :: (t ++ t')) e
  | header {s i c k b t e} : a.shape? s = some (.stmt (.forLoop i c k b)) → Run a (.one i) t e →
    e ≠ .next → Run a (.one s) (s :: t) e
  | breakLoop {s} : a.shape? s = some (.stmt .breakLoop) → Run a (.one s) [s] .brk
  | continueLoop {s} : a.shape? s = some (.stmt .continueLoop) → Run a (.one s) [s] .cont
  | discard {s} : a.shape? s = some (.stmt .discard) → Run a (.one s) [s] .discard
  | ret {s v} : a.shape? s = some (.stmt (.ret v)) → Run a (.one s) [s] .ret
  | done : Run a (.all []) [] .next
  | step {s ss t t' e} : Run a (.one s) t .next → Run a (.all ss) t' e →
    Run a (.all (s :: ss)) (t ++ t') e
  | stop {s ss t e} : Run a (.one s) t e → e ≠ .next → Run a (.all (s :: ss)) t e
  | fails {b k} : Run a (.turns true b k) [] .next
  | leaves {q b k t} : Run a (.one b) t .brk → Run a (.turns q b k) t .next
  | ends {q b k t e} : Run a (.one b) t e → e.leaves → Run a (.turns q b k) t e
  | again {q b k t e t' t'' e'} : Run a (.one b) t e → e.closes → Run a (.closing k) t' .next →
    Run a (.turns q b k) t'' e' → Run a (.turns q b k) (t ++ (t' ++ t'')) e'
  | leavesLate {q b k t e t'} : Run a (.one b) t e → e.closes → Run a (.closing k) t' .brk →
    Run a (.turns q b k) (t ++ t') .next
  | endsLate {q b k t e t' e'} : Run a (.one b) t e → e.closes →
    Run a (.closing k) t' e' → e'.leaves →
    Run a (.turns q b k) (t ++ t') e'
  | closed {k t e} : Run a (.one k) t e → e ≠ .cont → Run a (.closing k) t e
  | reclosed {k t t' e} : Run a (.one k) t .cont → Run a (.closing k) t' e →
    Run a (.closing k) (t ++ t') e

/-- The statements in a statement. -/
def substatements : StmtShape NodeId → List NodeId
  | .block ss => ss
  | .ifElse _ b o => [b, o]
  | .forLoop i _ k b => [i, b, k]
  | .whileLoop _ b => [b]
  | .loop b k => [b, k]
  | _ => []

/-- A break in the statement ends a loop around it. -/
inductive Breaks (a : Arena) : NodeId → Prop
  | here {s} : a.shape? s = some (.stmt .breakLoop) → Breaks a s
  | block {s ss x} : a.shape? s = some (.stmt (.block ss)) → x ∈ ss → Breaks a x → Breaks a s
  | thenBranch {s c b o} : a.shape? s = some (.stmt (.ifElse c b o)) → Breaks a b → Breaks a s
  | elseBranch {s c b o} : a.shape? s = some (.stmt (.ifElse c b o)) → Breaks a o → Breaks a s
  | header {s i c k b} : a.shape? s = some (.stmt (.forLoop i c k b)) → Breaks a i → Breaks a s

/-- What has to be in a task for it to end by a break. -/
def Task.Breaks (a : Arena) : Task → Prop
  | .one s => Flow.Breaks a s
  | .all ss => ∃ s ∈ ss, Flow.Breaks a s
  | .turns _ _ _ => False
  | .closing k => Flow.Breaks a k

theorem Run.breaks {a : Arena} {task : Task} {t : List NodeId} {e : Exit} (h : Run a task t e)
    (he : e = .brk) : task.Breaks a := by
  induction h with
  | absent | begun | simple | continueLoop | discard | ret | done | fails | leaves | leavesLate =>
    cases he
  | block hs _ ih =>
    obtain ⟨x, hx, hb⟩ := ih he
    exact .block hs hx hb
  | thenBranch hs _ ih => exact .thenBranch hs (ih he)
  | elseBranch hs _ ih => exact .elseBranch hs (ih he)
  | whileLoop _ _ ih | loop _ _ ih => exact (ih he).elim
  | forLoop _ _ _ _ ih => exact (ih he).elim
  | header hs _ _ ih => exact .header hs (ih he)
  | breakLoop hs => exact .here hs
  | step _ _ _ ih =>
    obtain ⟨x, hx, hb⟩ := ih he
    exact ⟨x, List.mem_cons_of_mem _ hx, hb⟩
  | stop _ _ ih => exact ⟨_, List.mem_cons_self, ih he⟩
  | ends _ hl =>
    subst he
    exact hl
  | again _ _ _ _ _ _ ih => exact ih he
  | endsLate _ _ _ hl =>
    subst he
    exact hl
  | closed _ _ ih => exact ih he
  | reclosed _ _ _ ih => exact ih he

section Record

variable (f : Facts)

/-- What the record says about a statement. Absent ones complete, reachable or not. -/
def Says (s : NodeId) (reachable : Bool) (b : Behaviors) : Prop :=
  if s = 0 then b = .only .next else ∃ fn, f.stmts[s]? = some ⟨fn, b, reachable⟩

/-- The record says of statements in order what follows from the behaviors before them. -/
inductive Chain (reachable : Bool) : List NodeId → Behaviors → Behaviors → Prop
  | nil {b} : Chain reachable [] b b
  | cons {s ss sofar b b'} : Says f s (reachable && sofar.next) b →
    Chain reachable ss (if reachable && sofar.next then sofar.andThen b else sofar) b' →
    Chain reachable (s :: ss) sofar b'

/-- What the record says about a statement of this shape follows from what it says about its
parts. -/
def Follows (reachable : Bool) (b : Behaviors) : StmtShape NodeId → Prop
  | .block ss => Chain f reachable ss (.only .next) b
  | .ifElse _ body otherwise =>
    ∃ x y, Says f body reachable x ∧ Says f otherwise reachable y ∧ b = x.union y
  | .forLoop i c k body =>
    ∃ x y z, Says f i reachable x ∧ Says f body reachable y ∧ Says f k reachable z ∧
      b = y.ofLoop (c ≠ 0)
  | .whileLoop _ body => ∃ x, Says f body reachable x ∧ b = x.ofLoop true
  | .loop body k => ∃ x y, Says f body reachable x ∧ Says f k reachable y ∧ b = x.ofLoop false
  | .breakLoop => b = .only .brk
  | .continueLoop => b = .only .cont
  | .discard => b = .only .discard
  | .ret _ => b = .only .ret
  | _ => b = .only .next

/-- The record is right about the statement, given what it says about its parts. -/
def Settled (a : Arena) (s : NodeId) : Prop :=
  ∀ x, a.shape? s = some (.stmt x) → ∃ reachable b, Says f s reachable b ∧ Follows f reachable b x

end Record

section Soundness

variable {f : Facts} {a : Arena} {reachable : Bool}

@[simp] theorem says_zero {b : Behaviors} : Says f 0 reachable b ↔ b = .only .next := by
  simp [Says]

theorem Says.eq {s : NodeId} {r r' : Bool} {b b' : Behaviors} (h : Says f s r b)
    (h' : Says f s r' b') (h0 : s ≠ 0) : r = r' ∧ b = b' := by
  simp only [Says, h0, if_false] at h h'
  obtain ⟨fn, h⟩ := h
  obtain ⟨fn', h'⟩ := h'
  simp_all

theorem Says.reachable_eq {s : NodeId} {b : Behaviors} (h : Says f s reachable b) (h0 : s ≠ 0) :
    f.reachable s = reachable := by
  simp only [Says, h0, if_false] at h
  obtain ⟨fn, h⟩ := h
  simp [Facts.reachable, h]

/-- A break stays among the behaviors of statements in order. -/
theorem Chain.brk {ss : List NodeId} {sofar b : Behaviors} (h : Chain f reachable ss sofar b)
    (hb : sofar.brk = true) : b.brk = true := by
  induction h with
  | nil => exact hb
  | cons _ _ ih =>
    apply ih
    split
    · simp [Behaviors.andThen, Behaviors.union, Behaviors.erase, Behaviors.set, hb]
    · exact hb

/-- What is asked of a task before it runs, with the behaviors that the record has for it. -/
def Task.Recorded (f : Facts) (a : Arena) : Task → Behaviors → Prop
  | .one s, b => Says f s true b
  | .all ss, b => ∃ sofar : Behaviors, Chain f true ss sofar b ∧ sofar.next = true
  | .turns q body k, b =>
    ∃ x y, Says f body true x ∧ Says f k true y ∧ b = x.ofLoop q ∧ (q = true ∨ ¬ Flow.Breaks a k)
  | .closing k, b => Says f k true b

/-- The nodes that a task starts from. -/
def Task.nodes : Task → List NodeId
  | .one s => [s]
  | .all ss => ss
  | .turns _ body k => [body, k]
  | .closing k => [k]

/-- Statements about which the record is right, and all statements they hold. No break in what is
run beside the body of a loop ends that loop, unless the loop may end anyway, or one around it. -/
structure Region (f : Facts) (a : Arena) (P : NodeId → Prop) : Prop where
  settled : ∀ {s}, P s → Settled f a s
  closed : ∀ {s x}, P s → a.shape? s = some (.stmt x) → ∀ c ∈ substatements x, c ≠ 0 → P c
  header : ∀ {s i c k b}, P s → a.shape? s = some (.stmt (.forLoop i c k b)) →
    ¬ Breaks a i ∧ (c = 0 → ¬ Breaks a k)
  closing : ∀ {s b k}, P s → a.shape? s = some (.stmt (.loop b k)) → ¬ Breaks a k

/-- What the record says about a run: it marks what was executed, and has the end among the
behaviors as far as reachability depends on it. -/
structure Covers (f : Facts) (b : Behaviors) (t : List NodeId) (e : Exit) : Prop where
  marks : ∀ x ∈ t, f.reachable x = true
  next : e = .next → b.next = true
  brk : e = .brk → b.brk = true

section Region

variable {P : NodeId → Prop} {b : Behaviors} {s : NodeId} {x : StmtShape NodeId}

/-- The record says about a statement what follows from its parts. -/
theorem Region.follows (hR : Region f a P) (hs : a.shape? s = some (.stmt x)) (hP : P s)
    (hb : Says f s true b) : Follows f true b x := by
  obtain ⟨r, b', hsay, hf⟩ := hR.settled hP x hs
  obtain ⟨rfl, rfl⟩ := hb.eq hsay (Arena.ne_zero_of_shape hs)
  exact hf

theorem Covers.cons {t : List NodeId} {e : Exit} {b' : Behaviors} (h : Covers f b' t e)
    (hs : a.shape? s = some (.stmt x)) (hb : Says f s true b) (hn : b'.next = true → b.next = true)
    (hk : b'.brk = true → b.brk = true) : Covers f b (s :: t) e where
  marks y hy := by
    rcases List.mem_cons.1 hy with rfl | hy
    · exact hb.reachable_eq (Arena.ne_zero_of_shape hs)
    · exact h.marks y hy
  next he := hn (h.next he)
  brk he := hk (h.brk he)

/-- A statement that executes nothing but itself. -/
theorem Covers.single {e : Exit} (hs : a.shape? s = some (.stmt x)) (hb : Says f s true b)
    (hn : e = .next → b.next = true) (hk : e = .brk → b.brk = true) : Covers f b [s] e where
  marks y hy := by
    rw [List.mem_singleton.1 hy]
    exact hb.reachable_eq (Arena.ne_zero_of_shape hs)
  next := hn
  brk := hk

theorem Covers.append {t t' : List NodeId} {e e' : Exit} {b' : Behaviors} (h : Covers f b t e)
    (h' : Covers f b' t' e') : Covers f b' (t ++ t') e' where
  marks y hy := (List.mem_append.1 hy).elim (h.marks y) (h'.marks y)
  next := h'.next
  brk := h'.brk

theorem next_only : (Behaviors.only .next).next = true := rfl

theorem next_ofLoop {c : Bool} (h : b.brk = true ∨ c = true) : (b.ofLoop c).next = true := by
  have hc : (b.brk || c) = true := by simpa using h
  simp [Behaviors.ofLoop, hc, Behaviors.insert, Behaviors.erase, Behaviors.set]

theorem next_andThen {sofar : Behaviors} (h : b.next = true) : (sofar.andThen b).next = true := by
  simp [Behaviors.andThen, Behaviors.union, h]

theorem brk_andThen {sofar : Behaviors} (h : b.brk = true) : (sofar.andThen b).brk = true := by
  simp [Behaviors.andThen, Behaviors.union, h]

theorem not_next_of_leaves {e : Exit} (h : e.leaves) : e ≠ .next ∧ e ≠ .brk := by
  cases e <;> simp_all [Exit.leaves]

/-- Whatever a recorded task does in a region where the record is right, the record covers. -/
theorem Run.covers (hR : Region f a P) {task : Task} {t : List NodeId} {e : Exit}
    (h : Run a task t e) (hb : task.Recorded f a b) (hP : ∀ n ∈ task.nodes, n ≠ 0 → P n) :
    Covers f b t e := by
  -- The induction is on the run, so that a loop may turn any number of times.
  have hhere : ∀ {s : NodeId} {x : StmtShape NodeId}, a.shape? s = some (.stmt x) →
      (∀ n ∈ (Task.one s).nodes, n ≠ 0 → P n) → P s :=
    fun hs hP => hP _ (List.mem_singleton_self _) (Arena.ne_zero_of_shape hs)
  induction h generalizing b with
  | absent =>
    have hb : b = .only .next := hb
    exact ⟨by simp, fun _ => hb ▸ next_only, nofun⟩
  | begun hs => exact .single hs hb nofun nofun
  | simple hs =>
    obtain ⟨x, hs, hx⟩ := hs
    have hf := hR.follows hs (hhere hs hP) hb
    refine .single hs hb (fun _ => ?_) nofun
    cases x <;> simp only at hx <;> exact hf ▸ next_only
  | block hs _ ih =>
    have hPs := hhere hs hP
    have hf : Chain f true _ _ b := hR.follows hs hPs hb
    exact (ih ⟨_, hf, next_only⟩ (hR.closed hPs hs)).cons hs hb id id
  | thenBranch hs _ ih =>
    have hPs := hhere hs hP
    obtain ⟨x, y, hx, _, rfl⟩ := hR.follows hs hPs hb
    refine (ih hx fun n hn => ?_).cons hs hb (by simp_all [Behaviors.union])
      (by simp_all [Behaviors.union])
    exact hR.closed hPs hs n (by simp_all [Task.nodes, substatements])
  | elseBranch hs _ ih =>
    have hPs := hhere hs hP
    obtain ⟨x, y, _, hy, rfl⟩ := hR.follows hs hPs hb
    refine (ih hy fun n hn => ?_).cons hs hb (by simp_all [Behaviors.union])
      (by simp_all [Behaviors.union])
    exact hR.closed hPs hs n (by simp_all [Task.nodes, substatements])
  | whileLoop hs _ ih =>
    have hPs := hhere hs hP
    obtain ⟨x, hx, rfl⟩ := hR.follows hs hPs hb
    refine (ih ⟨x, .only .next, hx, says_zero.2 rfl, rfl, .inl rfl⟩ fun n hn h0 => ?_).cons hs hb id
      id
    exact hR.closed hPs hs n (by simp_all [Task.nodes, substatements]) h0
  | loop hs _ ih =>
    have hPs := hhere hs hP
    obtain ⟨x, y, hx, hy, rfl⟩ := hR.follows hs hPs hb
    refine (ih ⟨x, y, hx, hy, rfl, .inr (hR.closing hPs hs)⟩ ?_).cons hs hb id id
    exact hR.closed hPs hs
  | @forLoop s i c k body t t' e hs _ _ ihi iht =>
    have hPs := hhere hs hP
    obtain ⟨x, y, z, hx, hy, hz, rfl⟩ := hR.follows hs hPs hb
    have hi := ihi hx fun n hn => hR.closed hPs hs n (by simp_all [Task.nodes, substatements])
    have hbreaks : decide (c ≠ 0) = true ∨ ¬ Flow.Breaks a k := by
      by_cases hc : c = 0
      · exact .inr ((hR.header hPs hs).2 hc)
      · exact .inl (decide_eq_true hc)
    refine (hi.append (iht ⟨y, z, hy, hz, rfl, hbreaks⟩ fun n hn => ?_)).cons hs hb id id
    exact hR.closed hPs hs n (by simp [Task.nodes, substatements] at hn ⊢; grind)
  | @header s i c k body t e hs hrun hne ih =>
    have hPs := hhere hs hP
    obtain ⟨x, y, z, hx, _, _, rfl⟩ := hR.follows hs hPs hb
    have hi := ih hx fun n hn => hR.closed hPs hs n (by simp_all [Task.nodes, substatements])
    have hcov : Covers f (y.ofLoop (c ≠ 0)) t e :=
      ⟨hi.marks, fun he => absurd he hne, fun he => absurd (hrun.breaks he) (hR.header hPs hs).1⟩
    exact hcov.cons hs hb id id
  | breakLoop hs =>
    have hf : b = .only .brk := hR.follows hs (hhere hs hP) hb
    exact .single hs hb nofun fun _ => hf ▸ rfl
  | continueLoop hs | discard hs | ret hs => exact .single hs hb nofun nofun
  | done =>
    obtain ⟨sofar, hc, hn⟩ := hb
    cases hc
    exact ⟨by simp, fun _ => hn, nofun⟩
  | step _ _ ihs ihr =>
    obtain ⟨sofar, hc, hn⟩ := hb
    cases hc with
    | cons hsay hrest =>
      simp only [hn, Bool.and_self, if_true] at hsay hrest
      have hs := ihs hsay fun n hn => hP n (by simp_all [Task.nodes])
      exact hs.append (ihr ⟨_, hrest, next_andThen (hs.next rfl)⟩ fun n hn =>
        hP n (List.mem_cons_of_mem _ hn))
  | stop _ hne ihs =>
    obtain ⟨sofar, hc, hn⟩ := hb
    cases hc with
    | cons hsay hrest =>
      simp only [hn, Bool.and_self, if_true] at hsay hrest
      have hs := ihs hsay fun n hn => hP n (by simp_all [Task.nodes])
      exact ⟨hs.marks, fun he => absurd he hne, fun he => hrest.brk (brk_andThen (hs.brk he))⟩
  | fails =>
    obtain ⟨x, y, _, _, rfl, _⟩ := hb
    exact ⟨by simp, fun _ => next_ofLoop (.inr rfl), nofun⟩
  | leaves _ ih =>
    obtain ⟨x, y, hx, _, rfl, _⟩ := hb
    have hbody := ih hx fun n hn => hP n (by simp_all [Task.nodes])
    exact ⟨hbody.marks, fun _ => next_ofLoop (.inl (hbody.brk rfl)), nofun⟩
  | ends _ hl ih =>
    obtain ⟨x, y, hx, _, rfl, _⟩ := hb
    have hbody := ih hx fun n hn => hP n (by simp_all [Task.nodes])
    have hne := not_next_of_leaves hl
    exact ⟨hbody.marks, fun he => absurd he hne.1, fun he => absurd he hne.2⟩
  | again _ _ _ _ ihb ihk iht =>
    have hturns := iht hb hP
    obtain ⟨x, y, hx, hy, rfl, _⟩ := hb
    have hbody := ihb hx fun n hn => hP n (by simp_all [Task.nodes])
    have hclose := ihk hy fun n hn => hP n (by simp_all [Task.nodes])
    exact hbody.append (hclose.append hturns)
  | leavesLate _ _ hk ihb ihk =>
    obtain ⟨x, y, hx, hy, rfl, hq⟩ := hb
    have hbody := ihb hx fun n hn => hP n (by simp_all [Task.nodes])
    have hclose := ihk hy fun n hn => hP n (by simp_all [Task.nodes])
    have hq := hq.resolve_right (not_not_intro (hk.breaks rfl))
    exact ⟨(hbody.append hclose).marks, fun _ => next_ofLoop (.inr hq), nofun⟩
  | endsLate _ _ _ hl ihb ihk =>
    obtain ⟨x, y, hx, hy, rfl, _⟩ := hb
    have hbody := ihb hx fun n hn => hP n (by simp_all [Task.nodes])
    have hclose := ihk hy fun n hn => hP n (by simp_all [Task.nodes])
    have hne := not_next_of_leaves hl
    exact ⟨(hbody.append hclose).marks, fun he => absurd he hne.1, fun he => absurd he hne.2⟩
  | closed _ _ ih => exact ih hb hP
  | reclosed _ _ ihk iht => exact (ihk hb hP).append (iht hb hP)

end Region
end Soundness
end ShaderLoom.Flow
