import RowCheck.Check
import RowCheck.Proofs.Infer.Targets
import RowCheck.Proofs.Match.Steps

/-!
What later parts of a compiler find in a checked tree. The check of ownership tells of every node how
its value is held and handed over, and the check of matches gives every match its decision tree. Both
go through the tree in ways of their own, yet no node is left out; and nothing else about the tree is
changed.
-/
namespace RowCheck

/-- Whether a value of some type may be handed over in some way: a reference as a reference, what is
copied as a copy, and anything else by moving it or by letting it be inspected. -/
def Ty.AdmitsPass : Ty → Pass → Prop
  | .ref .., p => p = .reference
  | t, p => if t.isCopy then p = .copy else p = .move ∨ p = .reference

theorem Holding.admitsPass_of (t : Ty) (d : Demand) : t.AdmitsPass (of t d).pass := by
  cases t with
  | ref => rfl
  | _ =>
    simp only [Ty.AdmitsPass, of]
    split
    · rfl
    · cases d <;> simp

/-- Whether a node has been told how its value is held, as its type has it. -/
def Info.Held (i : Info) : Prop :=
  ∃ h, i.holding = some h ∧ h.mode = i.ty.mode ∧ i.ty.AdmitsPass h.pass

theorem Info.held_hold (d : Demand) (i : Info) : (i.hold d).Held :=
  ⟨.of i.ty d, rfl, rfl, Holding.admitsPass_of i.ty d⟩

namespace TPattern

mutual

/-- How the names of a pattern are held, each with its type. -/
def modes : TPattern → List (Ty × Option Mode)
  | wild .. | lit .. => []
  | bind _ t _ mode => [(t, mode)]
  | tuple _ _ items => modesList items
  | variant _ _ _ _ args => modesList args
  | active _ _ _ _ args => modesList args

def modesList : List TPattern → List (Ty × Option Mode)
  | [] => []
  | p :: ps => p.modes ++ modesList ps

end

mutual

theorem modes_settle (s : Substitution) : (p : TPattern) →
    ∀ b ∈ (p.settle s).modes, b.2 = some b.1.mode
  | wild .. | lit .. => nofun
  | bind .. => fun b hb => by
    rw [List.mem_singleton.1 hb]
  | tuple _ _ items => modesList_settle s items
  | variant _ _ _ _ args => modesList_settle s args
  | active _ _ _ _ args => modesList_settle s args

theorem modesList_settle (s : Substitution) : (ps : List TPattern) →
    ∀ b ∈ modesList (settleList s ps), b.2 = some b.1.mode
  | [] => nofun
  | p :: ps => List.forall_mem_append.2 ⟨modes_settle s p, modesList_settle s ps⟩

end

end TPattern

namespace TExpr

variable {d : Demand} {r : Registries} {e : TExpr}

/-- Whether the names that a node binds are held as their types have it. -/
def BindsHeld : TExpr → Prop
  | lam _ x _ | letIn _ x _ _ => x.mode = some x.ty.mode
  | matchOn _ _ arms _ => ∀ a ∈ arms, ∀ b ∈ a.pattern.modes, b.2 = some b.1.mode
  | _ => True

/-- Whether a node has its decision tree, if it is a match whose scrutinee has passed; and this selects
from the arms there are. -/
def TreeFits : TExpr → Prop
  | matchOn _ s arms tree =>
    s.ty.containsError = false → ∃ t, tree = some t ∧ ∀ i ∈ t.arms, i < arms.length
  | _ => True

theorem bindsHeld_settle (s : Substitution) (e : TExpr) : (e.settle s).BindsHeld := by
  cases e with
  | lam | letIn => rfl
  | matchOn _ _ arms _ =>
    intro a ha
    rw [settleArms_eq] at ha
    obtain ⟨a, -, rfl⟩ := List.mem_map.1 ha
    rw [pattern_settleArm]
    exact a.pattern.modes_settle s
  | _ => trivial

/-! ## Targets in settled trees -/

theorem nodes_ne_nil (e : TExpr) : e.nodes ≠ [] := by
  cases e <;> simp [nodes]

theorem IsTarget.settle (s : Substitution) (h : e.IsTarget) : (e.settle s).IsTarget := by
  rcases h with ⟨i, t, rfl⟩ | h
  · exact .inl ⟨_, _, rfl⟩
  · exact .inr (by rw [nodes_settle, h, List.map_singleton])

theorem AssignsPlace.settle (s : Substitution) (h : e.AssignsPlace) :
    (e.settle s).AssignsPlace := by
  cases e with
  | assign => exact IsTarget.settle s h
  | _ => trivial

theorem Targeted.settle (s : Substitution) (h : e.Targeted) : (e.settle s).Targeted := by
  intro n hn
  rw [nodes_settle] at hn
  obtain ⟨m, hm, rfl⟩ := List.mem_map.1 hn
  exact (h m hm).settle s

/-! ## Holding every node -/

/-- What is borrowed is held as any expression is, for a demand of its own. -/
theorem hold_borrow (d : Demand) (i : Info) (k : BorrowKind) (e : TExpr) :
    ∃ d', (borrow i k e).hold d = borrow (i.hold d) k (e.hold d') := by
  cases e with
  | var | deref => exact ⟨.read, by simp only [hold]⟩
  | _ => exact ⟨.value, by simp only [hold]⟩

/-- What is assigned to is held as any expression is that is only inspected. Only the parts of
something that cannot be assigned to would be left out. -/
theorem hold_assign (d : Demand) (i : Info) {t : TExpr} (v : TExpr) (h : t.IsTarget) :
    (assign i t v).hold d = assign (i.hold d) (t.hold .read) (v.hold .value) := by
  rcases h with ⟨j, e, rfl⟩ | h
  · simp only [hold]
  · cases t with
    | lit | var | failed => simp only [hold, mapInfo]
    | seq j items =>
      cases items with
      | nil => simp only [hold, mapInfo, holdSeq]
      | cons e es => simp [nodes, nodesList, nodes_ne_nil] at h
    | tuple j items | construct j _ _ items =>
      cases items with
      | nil => simp only [hold, mapInfo, holdList]
      | cons e es => simp [nodes, nodesList, nodes_ne_nil] at h
    | _ => simp [nodes, nodes_ne_nil] at h

theorem holdArms_eq (d : Demand) (as : List TArm) : holdArms d as = as.map (holdArm d) := by
  induction as with
  | nil => rfl
  | cons a as ih => rw [holdArms, ih, List.map_cons]

theorem pattern_holdArm (d : Demand) (a : TArm) : (holdArm d a).pattern = a.pattern := by
  obtain ⟨p, g, b⟩ := a
  cases g <;> rfl

/-- Whether a node and the names that it binds are held. -/
def Annotated (e : TExpr) : Prop := e.info.Held ∧ e.BindsHeld

/-- Whether a node of a tree that is about to be held assigns to a target, if it assigns, and its
patterns have been told how their names are held. -/
def Ready (e : TExpr) : Prop := e.AssignsPlace ∧ e.BindsHeld

theorem annotated_matchOn {i : Info} {s : TExpr} {arms : List TArm} {tree : Option DecisionTree}
    (h : (matchOn i s arms tree).Ready) (s' : TExpr) :
    (matchOn (i.hold d) s' (holdArms d arms) tree).Annotated := by
  refine ⟨i.held_hold d, fun a ha => ?_⟩
  rw [holdArms_eq] at ha
  obtain ⟨b, hb, rfl⟩ := List.mem_map.1 ha
  rw [pattern_holdArm]
  exact h.2 b hb

mutual

theorem annotated_hold : (e : TExpr) → (∀ n ∈ e.nodes, n.Ready) → ∀ d, ∀ n ∈ (e.hold d).nodes,
    n.Annotated
  | lit i _, _, d | var i _, _, d | failed i, _, d => by
    simp only [hold, nodes, List.forall_mem_singleton]
    exact ⟨i.held_hold d, trivial⟩
  | call i f a, h, d => by
    simp only [hold, nodes, List.forall_mem_cons, List.forall_mem_append] at h ⊢
    exact ⟨⟨i.held_hold d, trivial⟩, annotated_hold f h.2.1 _, annotated_hold a h.2.2 _⟩
  | lam i x b, h, d => by
    simp only [hold, nodes, List.forall_mem_cons] at h ⊢
    exact ⟨⟨i.held_hold d, rfl⟩, annotated_hold b h.2 _⟩
  | letIn i x v b, h, d => by
    simp only [hold, nodes, List.forall_mem_cons, List.forall_mem_append] at h ⊢
    exact ⟨⟨i.held_hold d, rfl⟩, annotated_hold v h.2.1 _, annotated_hold b h.2.2 _⟩
  | seq i items, h, d => by
    simp only [hold, nodes, List.forall_mem_cons] at h ⊢
    exact ⟨⟨i.held_hold d, trivial⟩, annotated_holdSeq items h.2 d⟩
  | cond i c t e, h, d => by
    simp only [hold, nodes, List.forall_mem_cons, List.forall_mem_append] at h ⊢
    exact ⟨⟨i.held_hold d, trivial⟩, ⟨annotated_hold c h.2.1.1 _, annotated_hold t h.2.1.2 _⟩,
      annotated_hold e h.2.2 _⟩
  | matchOn i s arms tree, h, d => by
    simp only [hold, nodes, List.forall_mem_cons, List.forall_mem_append] at h ⊢
    exact ⟨annotated_matchOn h.1 _, annotated_hold s h.2.1 _, annotated_holdArms arms h.2.2 d⟩
  | tuple i items, h, d => by
    simp only [hold, nodes, List.forall_mem_cons] at h ⊢
    exact ⟨⟨i.held_hold d, trivial⟩, annotated_holdList items h.2⟩
  | construct i _ _ args, h, d => by
    simp only [hold, nodes, List.forall_mem_cons] at h ⊢
    exact ⟨⟨i.held_hold d, trivial⟩, annotated_holdList args h.2⟩
  | binary i _ a b, h, d => by
    simp only [hold, nodes, List.forall_mem_cons, List.forall_mem_append] at h ⊢
    exact ⟨⟨i.held_hold d, trivial⟩, annotated_hold a h.2.1 _, annotated_hold b h.2.2 _⟩
  | unary i _ a, h, d => by
    simp only [hold, nodes, List.forall_mem_cons] at h ⊢
    exact ⟨⟨i.held_hold d, trivial⟩, annotated_hold a h.2 _⟩
  | borrow i k a, h, d => by
    obtain ⟨d', hd⟩ := hold_borrow d i k a
    rw [hd]
    simp only [nodes, List.forall_mem_cons] at h ⊢
    exact ⟨⟨i.held_hold d, trivial⟩, annotated_hold a h.2 d'⟩
  | deref i a, h, d => by
    simp only [hold, nodes, List.forall_mem_cons] at h ⊢
    exact ⟨⟨i.held_hold d, trivial⟩, annotated_hold a h.2 _⟩
  | assign i t v, h, d => by
    simp only [nodes, List.forall_mem_cons, List.forall_mem_append] at h
    rw [hold_assign d i v h.1.1]
    simp only [nodes, List.forall_mem_cons, List.forall_mem_append]
    exact ⟨⟨i.held_hold d, trivial⟩, annotated_hold t h.2.1 _, annotated_hold v h.2.2 _⟩

theorem annotated_holdList : (es : List TExpr) → (∀ n ∈ nodesList es, n.Ready) →
    ∀ n ∈ nodesList (holdList es), n.Annotated
  | [], _ => nofun
  | e :: es, h => by
    simp only [holdList, nodesList, List.forall_mem_append] at h ⊢
    exact ⟨annotated_hold e h.1 _, annotated_holdList es h.2⟩

theorem annotated_holdSeq : (es : List TExpr) → (∀ n ∈ nodesList es, n.Ready) →
    ∀ d, ∀ n ∈ nodesList (holdSeq d es), n.Annotated
  | [], _, _ => nofun
  | [e], h, d => by
    simp only [holdSeq, nodesList, List.append_nil] at h ⊢
    exact annotated_hold e h d
  | e :: f :: es, h, d => by
    rw [nodesList, List.forall_mem_append] at h
    rw [holdSeq, nodesList, List.forall_mem_append]
    exact ⟨annotated_hold e h.1 _, annotated_holdSeq (f :: es) h.2 d⟩

theorem annotated_holdArm : (a : TArm) → (∀ n ∈ nodesArm a, n.Ready) →
    ∀ d, ∀ n ∈ nodesArm (holdArm d a), n.Annotated
  | .mk p (some g) b, h, d => by
    simp only [holdArm, nodesArm, List.forall_mem_append] at h ⊢
    exact ⟨annotated_hold g h.1 _, annotated_hold b h.2 d⟩
  | .mk p none b, h, d => annotated_hold b h d

theorem annotated_holdArms : (as : List TArm) → (∀ n ∈ nodesArms as, n.Ready) →
    ∀ d, ∀ n ∈ nodesArms (holdArms d as), n.Annotated
  | [], _, _ => nofun
  | a :: as, h, d => by
    simp only [holdArms, nodesArms, List.forall_mem_append] at h ⊢
    exact ⟨annotated_holdArm a h.1 d, annotated_holdArms as h.2 d⟩

end

/-! ## A tree for every match -/

theorem info_compileMatches (r : Registries) (e : TExpr) : (e.compileMatches r).1.info = e.info := by
  cases e <;> simp only [compileMatches, info]

theorem compileMatchesArms_eq (r : Registries) (as : List TArm) :
    (compileMatchesArms r as).1 = as.map fun a => (compileMatchesArm r a).1 := by
  induction as with
  | nil => rfl
  | cons a as ih => rw [List.map_cons, ← ih]; rfl

theorem pattern_compileMatchesArm (r : Registries) (a : TArm) :
    (compileMatchesArm r a).1.pattern = a.pattern := by
  obtain ⟨p, g, b⟩ := a
  cases g <;> rfl

mutual

/-- Compiling the matches leaves every node in its place. -/
theorem nodes_compileMatches (r : Registries) : (e : TExpr) →
    (e.compileMatches r).1.nodes = e.nodes.map fun n => (n.compileMatches r).1
  | lit .. | var .. | failed _ => rfl
  | call _ f a => by
    simp [compileMatches, nodes, nodes_compileMatches r f, nodes_compileMatches r a]
  | lam _ _ b => by simp [compileMatches, nodes, nodes_compileMatches r b]
  | letIn _ _ v b => by
    simp [compileMatches, nodes, nodes_compileMatches r v, nodes_compileMatches r b]
  | seq _ items => by simp [compileMatches, nodes, nodesList_compileMatches r items]
  | tuple _ items => by simp [compileMatches, nodes, nodesList_compileMatches r items]
  | construct _ _ _ args => by simp [compileMatches, nodes, nodesList_compileMatches r args]
  | cond _ c t e => by
    simp [compileMatches, nodes, nodes_compileMatches r c, nodes_compileMatches r t,
      nodes_compileMatches r e]
  | matchOn _ s arms _ => by
    simp [compileMatches, nodes, nodes_compileMatches r s, nodesArms_compileMatches r arms]
  | binary _ _ a b => by
    simp [compileMatches, nodes, nodes_compileMatches r a, nodes_compileMatches r b]
  | unary _ _ a => by simp [compileMatches, nodes, nodes_compileMatches r a]
  | borrow _ _ a => by simp [compileMatches, nodes, nodes_compileMatches r a]
  | deref _ a => by simp [compileMatches, nodes, nodes_compileMatches r a]
  | assign _ a b => by
    simp [compileMatches, nodes, nodes_compileMatches r a, nodes_compileMatches r b]

theorem nodesList_compileMatches (r : Registries) : (es : List TExpr) →
    nodesList (compileMatchesList r es).1 = (nodesList es).map fun n => (n.compileMatches r).1
  | [] => rfl
  | e :: es => by
    simp [compileMatchesList, nodesList, nodes_compileMatches r e, nodesList_compileMatches r es]

theorem nodesArm_compileMatches (r : Registries) : (a : TArm) →
    nodesArm (compileMatchesArm r a).1 = (nodesArm a).map fun n => (n.compileMatches r).1
  | .mk _ (some g) b => by
    simp [compileMatchesArm, nodesArm, nodes_compileMatches r g, nodes_compileMatches r b]
  | .mk _ none b => nodes_compileMatches r b

theorem nodesArms_compileMatches (r : Registries) : (as : List TArm) →
    nodesArms (compileMatchesArms r as).1 = (nodesArms as).map fun n => (n.compileMatches r).1
  | [] => rfl
  | a :: as => by
    simp [compileMatchesArms, nodesArms, nodesArm_compileMatches r a, nodesArms_compileMatches r as]

end

theorem Annotated.compileMatches (r : Registries) (h : e.Annotated) :
    (e.compileMatches r).1.Annotated := by
  refine ⟨(info_compileMatches r e).symm ▸ h.1, ?_⟩
  cases e with
  | lam | letIn => exact h.2
  | matchOn _ _ arms _ =>
    intro a ha
    rw [compileMatchesArms_eq] at ha
    obtain ⟨b, hb, rfl⟩ := List.mem_map.1 ha
    rw [pattern_compileMatchesArm]
    exact h.2 b hb
  | _ => trivial

theorem compileMatches_matchOn {i : Info} {s : TExpr} {arms : List TArm}
    (tree : Option DecisionTree) (hs : s.ty.containsError = false) :
    ((matchOn i s arms tree).compileMatches r).1 = matchOn i (s.compileMatches r).1
      (compileMatchesArms r arms).1 (some (r.compileMatch s.ty (arms.map TArm.clause)).tree) := by
  simp [compileMatches, hs]

theorem treeFits_compileMatches (r : Registries) (e : TExpr) : (e.compileMatches r).1.TreeFits := by
  cases e with
  | matchOn i s arms tree =>
    cases hs : s.ty.containsError with
    | true =>
      intro h
      rw [ty, info_compileMatches] at h
      cases hs.symm.trans h
    | false =>
      rw [compileMatches_matchOn tree hs]
      refine fun _ => ⟨_, rfl, fun i hi => ?_⟩
      have hlt := Matrix.lt_of_mem_arms_ofArms hi
      rw [List.length_map] at hlt
      rwa [compileMatchesArms_eq, List.length_map]
  | _ => trivial

/-! ## What is left as it is -/

mutual

/-- The expression without what is filled in after inference: how values and names are held, and the
trees of matches. -/
def bare : TExpr → TExpr
  | lit i v => lit { i with holding := none } v
  | var i x => var { i with holding := none } x
  | failed i => failed { i with holding := none }
  | call i f a => call { i with holding := none } f.bare a.bare
  | lam i x b => lam { i with holding := none } { x with mode := none } b.bare
  | letIn i x v b => letIn { i with holding := none } { x with mode := none } v.bare b.bare
  | seq i items => seq { i with holding := none } (bareList items)
  | tuple i items => tuple { i with holding := none } (bareList items)
  | construct i t v args => construct { i with holding := none } t v (bareList args)
  | cond i c t e => cond { i with holding := none } c.bare t.bare e.bare
  | matchOn i s arms _ => matchOn { i with holding := none } s.bare (bareArms arms) none
  | binary i op a b => binary { i with holding := none } op a.bare b.bare
  | unary i op a => unary { i with holding := none } op a.bare
  | borrow i k a => borrow { i with holding := none } k a.bare
  | deref i a => deref { i with holding := none } a.bare
  | assign i a b => assign { i with holding := none } a.bare b.bare

def bareList : List TExpr → List TExpr
  | [] => []
  | e :: es => e.bare :: bareList es

def bareArm : TArm → TArm
  | .mk p (some g) b => .mk p (some g.bare) b.bare
  | .mk p none b => .mk p none b.bare

def bareArms : List TArm → List TArm
  | [] => []
  | a :: as => bareArm a :: bareArms as

end

theorem bare_mapInfo_hold (d : Demand) (e : TExpr) : (e.mapInfo (Info.hold d)).bare = e.bare := by
  cases e <;> rfl

/-- What is assigned to is held or left as it is, but for its own node. -/
theorem bare_hold_assign (d : Demand) (i : Info) {t v : TExpr} (ht : ∀ d, (t.hold d).bare = t.bare)
    (hv : (v.hold .value).bare = v.bare) :
    ((assign i t v).hold d).bare = (assign i t v).bare := by
  cases t with
  | deref j e =>
    have h := ht .read
    simp only [hold, bare] at h ⊢
    rw [h, hv]
    rfl
  | _ =>
    simp only [hold, bare, bare_mapInfo_hold, hv]
    rfl

mutual

theorem bare_hold : (e : TExpr) → ∀ d, (e.hold d).bare = e.bare
  | lit .., _ | var .., _ | failed _, _ => rfl
  | call _ f a, d => by simp [hold, bare, Info.hold, bare_hold f, bare_hold a]
  | lam _ _ b, d => by simp [hold, bare, Info.hold, Binder.hold, bare_hold b]
  | letIn _ _ v b, d => by simp [hold, bare, Info.hold, Binder.hold, bare_hold v, bare_hold b]
  | seq _ items, d => by simp [hold, bare, Info.hold, bare_holdSeq items]
  | cond _ c t e, d => by simp [hold, bare, Info.hold, bare_hold c, bare_hold t, bare_hold e]
  | matchOn _ s arms _, d => by simp [hold, bare, Info.hold, bare_hold s, bare_holdArms arms]
  | tuple _ items, d => by simp [hold, bare, Info.hold, bare_holdList items]
  | construct _ _ _ args, d => by simp [hold, bare, Info.hold, bare_holdList args]
  | binary _ _ a b, d => by simp [hold, bare, Info.hold, bare_hold a, bare_hold b]
  | unary _ _ a, d => by simp [hold, bare, Info.hold, bare_hold a]
  | borrow i k a, d => by
    obtain ⟨d', hd⟩ := hold_borrow d i k a
    rw [hd]
    simp [bare, Info.hold, bare_hold a]
  | deref _ a, d => by simp [hold, bare, Info.hold, bare_hold a]
  | assign i t v, d => bare_hold_assign d i (bare_hold t) (bare_hold v _)

theorem bare_holdList : (es : List TExpr) → bareList (holdList es) = bareList es
  | [] => rfl
  | e :: es => by simp [holdList, bareList, bare_hold e, bare_holdList es]

theorem bare_holdSeq : (es : List TExpr) → ∀ d, bareList (holdSeq d es) = bareList es
  | [], _ => rfl
  | [e], d => by simp [holdSeq, bareList, bare_hold e]
  | e :: f :: es, d => by
    rw [holdSeq, bareList, bare_hold e, bare_holdSeq (f :: es), bareList.eq_2 e]

theorem bare_holdArm : (a : TArm) → ∀ d, bareArm (holdArm d a) = bareArm a
  | .mk _ (some g) b, d => by simp [holdArm, bareArm, bare_hold g, bare_hold b]
  | .mk _ none b, d => by simp [holdArm, bareArm, bare_hold b]

theorem bare_holdArms : (as : List TArm) → ∀ d, bareArms (holdArms d as) = bareArms as
  | [], _ => rfl
  | a :: as, d => by simp [holdArms, bareArms, bare_holdArm a, bare_holdArms as]

end

mutual

theorem bare_compileMatches (r : Registries) : (e : TExpr) → (e.compileMatches r).1.bare = e.bare
  | lit .. | var .. | failed _ => rfl
  | call _ f a => by simp [compileMatches, bare, bare_compileMatches r f, bare_compileMatches r a]
  | lam _ _ b => by simp [compileMatches, bare, bare_compileMatches r b]
  | letIn _ _ v b => by simp [compileMatches, bare, bare_compileMatches r v, bare_compileMatches r b]
  | seq _ items => by simp [compileMatches, bare, bareList_compileMatches r items]
  | tuple _ items => by simp [compileMatches, bare, bareList_compileMatches r items]
  | construct _ _ _ args => by simp [compileMatches, bare, bareList_compileMatches r args]
  | cond _ c t e => by
    simp [compileMatches, bare, bare_compileMatches r c, bare_compileMatches r t,
      bare_compileMatches r e]
  | matchOn _ s arms _ => by
    simp [compileMatches, bare, bare_compileMatches r s, bareArms_compileMatches r arms]
  | binary _ _ a b => by simp [compileMatches, bare, bare_compileMatches r a, bare_compileMatches r b]
  | unary _ _ a => by simp [compileMatches, bare, bare_compileMatches r a]
  | borrow _ _ a => by simp [compileMatches, bare, bare_compileMatches r a]
  | deref _ a => by simp [compileMatches, bare, bare_compileMatches r a]
  | assign _ a b => by simp [compileMatches, bare, bare_compileMatches r a, bare_compileMatches r b]

theorem bareList_compileMatches (r : Registries) : (es : List TExpr) →
    bareList (compileMatchesList r es).1 = bareList es
  | [] => rfl
  | e :: es => by
    simp [compileMatchesList, bareList, bare_compileMatches r e, bareList_compileMatches r es]

theorem bareArm_compileMatches (r : Registries) : (a : TArm) →
    bareArm (compileMatchesArm r a).1 = bareArm a
  | .mk _ (some g) b => by
    simp [compileMatchesArm, bareArm, bare_compileMatches r g, bare_compileMatches r b]
  | .mk _ none b => by simp [compileMatchesArm, bareArm, bare_compileMatches r b]

theorem bareArms_compileMatches (r : Registries) : (as : List TArm) →
    bareArms (compileMatchesArms r as).1 = bareArms as
  | [] => rfl
  | a :: as => by
    simp [compileMatchesArms, bareArms, bareArm_compileMatches r a, bareArms_compileMatches r as]

end

end TExpr

/-! ## Declarations -/

/-- The function without what is filled in after inference. -/
def TFunction.bare (f : TFunction) : TFunction := { f with body := f.body.bare }

namespace TDecl

/-- The declaration without what is filled in after inference. -/
def bare (d : TDecl) : TDecl := d.mapFunction TFunction.bare

theorem bare_checkOwnership (d : TDecl) : d.checkOwnership.1.bare = d.bare := by
  cases d <;>
    simp [TDecl.checkOwnership, TFunction.checkOwnership, bare, mapFunction, TFunction.bare,
      TExpr.bare_hold]

theorem bare_compileMatches (r : Registries) (d : TDecl) : (d.compileMatches r).1.bare = d.bare := by
  cases d <;>
    simp [TDecl.compileMatches, bare, mapFunction, TFunction.bare, TExpr.bare_compileMatches]

theorem function?_analyze {r : Registries} {d : TDecl} {g : TFunction}
    (h : (d.analyze r).1.function? = some g) :
    ∃ f, d.function? = some f ∧ g.body = ((f.body.hold .value).compileMatches r).1 := by
  cases d with
  | fn f | active f =>
    cases h
    exact ⟨f, rfl, rfl⟩
  | type => cases h

end TDecl

/-- A declaration as the parts of a compiler that come later need it: each check has changed nothing of
it but what it fills in; and after both, every node and every name is held as its type has it, and
every match whose scrutinee has passed has a decision tree. -/
structure TDecl.Completed (d : TDecl) (r : Registries) : Prop where
  owned : d.checkOwnership.1.bare = d.bare
  analyzed : (d.analyze r).1.bare = d.bare
  nodes : ∀ f, (d.analyze r).1.function? = some f → ∀ n ∈ f.body.nodes,
    n.info.Held ∧ n.BindsHeld ∧ n.TreeFits

/-- The declarations of a group that passes inference are completed, whatever the checks of ownership
and of matches have to say of them. -/
theorem checkGroup_completed {r : Registries} {env : TypeEnv} {tracing : Bool} {ds : List Decl}
    (h : (checkGroup r env tracing ds).hasErrors = false) :
    ∀ d ∈ (checkGroup r env tracing ds).decls, d.Completed r := by
  intro d hd
  refine ⟨d.bare_checkOwnership, ?_, fun g hg n hn => ?_⟩
  · exact (TDecl.bare_compileMatches r d.checkOwnership.1).trans d.bare_checkOwnership
  · obtain ⟨f, hf, hbody⟩ := TDecl.function?_analyze hg
    obtain ⟨s, body, htargeted, hf⟩ := checkGroup_targeted h hd hf
    have hready : ∀ n ∈ f.body.nodes, n.Ready := by
      intro n hn
      refine ⟨(hf ▸ htargeted.settle s) n hn, ?_⟩
      rw [hf, TExpr.nodes_settle] at hn
      obtain ⟨m, -, rfl⟩ := List.mem_map.1 hn
      exact m.bindsHeld_settle s
    rw [hbody, TExpr.nodes_compileMatches] at hn
    obtain ⟨m, hm, rfl⟩ := List.mem_map.1 hn
    have hannotated := (TExpr.annotated_hold f.body hready .value m hm).compileMatches r
    exact ⟨hannotated.1, hannotated.2, m.treeFits_compileMatches r⟩

/-- A function of which both checks have something to say: its result borrows a local, and its match
does not cover all pairs.
```
fn sift(n) {
  let m = 1; let step = |k| k + m; m := step(n);
  match (n, m) { (0, k) if k = 2 -> &m }
}
```
-/
def sift : Decl :=
  let name := Name.mk .synthetic
  let var := Expr.var .synthetic
  let int := fun n => Expr.lit .synthetic (.int n)
  .fn ⟨.synthetic, name "sift", [⟨name "n", none⟩], none, none,
    .letIn .synthetic (name "m") none (int 1)
      (.letIn .synthetic (name "step") none
        (.lam .synthetic [⟨name "k", none⟩] (.binary .synthetic .add .synthetic (var "k") (var "m")))
        (.seq .synthetic [.assign .synthetic (var "m") (.call .synthetic (var "step") [var "n"]),
          .matchOn .synthetic (.tuple .synthetic [var "n", var "m"])
            [.mk (.tuple .synthetic [.lit .synthetic (.int 0), .var .synthetic "k"])
              (some (.binary .synthetic .eq .synthetic (var "k") (int 2)))
              (.borrow .synthetic false (var "m"))]]))⟩

theorem sift_completed : (checkGroup .empty (.ofGlobals ∅) false [sift]).hasErrors = false ∧
    (∃ d ∈ (checkGroup .empty (.ofGlobals ∅) false [sift]).decls,
      (d.analyze .empty).2.map (·.category) = [.danglingBorrow, .nonExhaustiveMatch]) ∧
    ∀ d ∈ (checkGroup .empty (.ofGlobals ∅) false [sift]).decls, d.Completed .empty :=
  have hpass : (checkGroup .empty (.ofGlobals ∅) false [sift]).hasErrors = false := by
    decide +kernel
  ⟨hpass, by decide +kernel, checkGroup_completed hpass⟩

end RowCheck
