import RowCheck.Proofs.Check.Sharing
import RowCheck.Proofs.Infer.Bodies

/-!
Declarations are isolated from what they do not mention. If the body of one declaration is exchanged,
the declarations that do not mention it, directly or by way of others, are shared by both modules, at
the same places; so nothing that is found out of them changes, whether or not the one that is
exchanged is at fault.
-/
namespace RowCheck

open Relation

namespace Module

/-- Whether a declaration mentions the value that another one binds. -/
def Mentions (m : Module) (active : ActiveRegistry) (i j : Nat) : Prop :=
  ∃ d name, m[i]? = some d ∧ name ∈ d.mentioned active ∧ m.FirstValue name j

/-- Whether a declaration is another one, or mentions it directly or by way of others. -/
def MentionsThrough (m : Module) (active : ActiveRegistry) : Nat → Nat → Prop :=
  ReflTransGen (m.Mentions active)

/-- Whether no value of a name mentions a declaration, directly or by way of others. -/
def Unaffected (m : Module) (active : ActiveRegistry) (index : Nat) (name : String) : Prop :=
  ∀ i, m.FirstValue name i → ¬ m.MentionsThrough active i index

variable {m : Module} {active : ActiveRegistry} {index : Nat} (body : Expr)

theorem getElem?_withBody_of_ne {i : Nat} (h : i ≠ index) : (m.withBody index body)[i]? = m[i]? :=
  List.getElem?_modify_ne _ m (Ne.symm h)

/-- A declaration with another body binds the same name. -/
theorem firstValue_withBody {name : String} {i : Nat} :
    (m.withBody index body).FirstValue name i ↔ m.FirstValue name i := by
  have hname : ∀ j : Nat, (m.withBody index body)[j]?.bind Decl.valueText? =
      m[j]?.bind Decl.valueText? := by
    intro j
    have hget : (m.withBody index body)[j]? = _ := List.getElem?_modify _ _ m j
    rw [hget]
    cases m[j]? with
    | none => rfl
    | some d =>
      show Decl.valueText? (if index = j then d.withBody body else d) = d.valueText?
      split
      · rw [Decl.valueText?, Decl.valueName?_withBody, Decl.valueText?]
      · rfl
  simp only [FirstValue, hname]

/-- What is unaffected by an exchange of bodies is shared, and stays where it is. -/
theorem aligned_withBody : m.Aligned (m.withBody index body) active (m.Unaffected active index) where
  same name hname := by
    refine Option.ext fun d => ?_
    rw [value?_eq_some_iff, value?_eq_some_iff]
    simp only [firstValue_withBody]
    refine exists_congr fun i => and_congr_right fun hi => ?_
    have hne : i ≠ index := by
      rintro rfl
      exact hname i hi .refl
    rw [getElem?_withBody_of_ne body hne]
  closed name d hname hd other hother := by
    obtain ⟨i, hi, hget⟩ := value?_eq_some_iff.1 hd
    intro j hj hthrough
    exact hname i hi (.head ⟨d, other, hget, hother, hj⟩ hthrough)
  ordered hi hj _ _ hlt := by
    obtain ⟨_, -, hi, hi'⟩ := hi
    obtain ⟨_, -, hj, hj'⟩ := hj
    rwa [hi.unique ((firstValue_withBody body).1 hi'), hj.unique ((firstValue_withBody body).1 hj')]
      at hlt

/-- Whether checking two modules tells the same of the value that both declare at an index. -/
structure SameOutcome (m m' : Module) (ambient : SortedMap String Scheme) (config : CheckConfig)
    (name : String) (i : Nat) : Prop where
  /-- It has one scheme. -/
  scheme : ∃ s, (m.check ambient config).schemes.get? name = some s ∧
    (m'.check ambient config).schemes.get? name = some s
  /-- It has a checked form, which is the same. -/
  checked : ∃ c ∈ (m.check ambient config).declarations, c.name = name ∧ c.decl.Defines name
  same : ∀ c : CheckedDecl, c.name = name → c.decl.Defines name →
    (c ∈ (m.check ambient config).declarations ↔ c ∈ (m'.check ambient config).declarations)
  /-- Its group contributes the same, and what it reports is part of either report. -/
  group : ∃ o ∈ m.groupOutputs ambient config, i ∈ o.declarations.map (·.1)
  contributes : ∀ o, i ∈ o.declarations.map (·.1) →
    (o ∈ m.groupOutputs ambient config ↔ o ∈ m'.groupOutputs ambient config)
  reports : ∀ o ∈ m.groupOutputs ambient config, i ∈ o.declarations.map (·.1) →
    o.diagnostics <:+: (m.check ambient config).diagnostics ∧
      o.diagnostics <:+: (m'.check ambient config).diagnostics

/-- Whatever body a declaration is given, what is told of the declarations that do not mention it,
directly or by way of others, stays the same. -/
theorem check_withBody (m : Module) (ambient : SortedMap String Scheme) (config : CheckConfig)
    (index : Nat) (body : Expr) {name : String} {i : Nat} (hi : m.FirstValue name i)
    (h : ¬ m.MentionsThrough m.registries.1.active i index) :
    m.SameOutcome (m.withBody index body) ambient config name i := by
  have hr : m.registries.1 = (m.withBody index body).registries.1 := by rw [registries_withBody]
  have haligned : m.Aligned (m.withBody index body) m.registries.1.active
      (m.Unaffected m.registries.1.active index) := aligned_withBody body
  have hname : m.Unaffected m.registries.1.active index name := fun j hj => hj.unique hi ▸ h
  have hfixed : ∀ j j', Counterparts m (m.withBody index body)
      (m.Unaffected m.registries.1.active index) j j' → j = j' := by
    rintro j j' ⟨_, -, hj, hj'⟩
    exact hj.unique ((firstValue_withBody body).1 hj')
  have hcontributes : ∀ o, i ∈ o.declarations.map (·.1) → (o ∈ m.groupOutputs ambient config ↔
      o ∈ (m.withBody index body).groupOutputs ambient config) := by
    intro o ho
    obtain ⟨⟨i, c⟩, hc, rfl⟩ := List.mem_map.1 ho
    rw [mem_groupOutputs, mem_groupOutputs, ← hr]
    refine exists_congr fun k => ⟨fun hk => ?_, fun hk => ?_⟩
    · obtain rfl := (hk.firstValue hc).name_unique hi
      exact haligned.contributes_of_fixed hfixed hk hc hname
    · obtain rfl := ((firstValue_withBody body).1 (hk.firstValue hc)).name_unique hi
      refine haligned.symm.contributes_of_fixed (fun j j' hj => ?_) hk hc hname
      exact (hfixed j' j hj.symm).symm
  obtain ⟨o, ho, ⟨c, hc, hcname, hdefines⟩, s, hs⟩ := exists_output m ambient config hi
  constructor
  case scheme => exact ⟨s, hs, haligned.get?_check_schemes_eq hr hname ▸ hs⟩
  case checked =>
    exact ⟨c, (mem_check_declarations (hcname ▸ hdefines)).2 ⟨o, ho, i, hc⟩, hcname, hdefines⟩
  case same =>
    rintro c rfl hdefines
    exact haligned.mem_check_declarations_iff hr hdefines hname
  case group => exact ⟨o, ho, List.mem_map_of_mem hc⟩
  case contributes => exact hcontributes
  case reports =>
    exact fun o ho hio => ⟨diagnostics_within ho, diagnostics_within ((hcontributes o hio).1 ho)⟩

/-- Three functions, one of which uses another:
`fn inc(n) { n + 1 }`, `fn two() { inc(1) }`, `fn shout() { inc(2) }`. -/
def counting : Module :=
  let name := Name.mk .synthetic
  let var := Expr.var .synthetic
  let int := fun n => Expr.lit .synthetic (.int n)
  [.fn ⟨.synthetic, name "inc", [⟨name "n", none⟩], none, none,
      .binary .synthetic .add .synthetic (var "n") (int 1)⟩,
    .fn ⟨.synthetic, name "two", [], none, none, .call .synthetic (var "inc") [int 1]⟩,
    .fn ⟨.synthetic, name "shout", [], none, none, .call .synthetic (var "inc") [int 2]⟩]

/-- A body that is at fault: `inc(true)`. -/
def misuse : Expr :=
  .call .synthetic (.var .synthetic "inc") [.lit .synthetic (.bool true)]

/-- The second function keeps its outcome when the third one becomes faulty. -/
theorem two_sameOutcome :
    counting.FirstValue "two" 1 ∧ ¬ counting.MentionsThrough counting.registries.1.active 1 2 ∧
    (RowCheck.checkGroup .empty (.ofGlobals ((∅ : SortedMap String Scheme).insert "inc"
      (.mono (.arrow .s32 .s32)))) false ((counting.withBody 2 misuse).declsAt [2])).hasErrors = true ∧
    counting.SameOutcome (counting.withBody 2 misuse) ∅ .default "two" 1 := by
  have hfirst : counting.FirstValue "two" 1 := ⟨by decide, by decide⟩
  have hthrough : ∀ j, counting.MentionsThrough counting.registries.1.active 1 j → j < 2 := by
    intro j hj
    induction hj with
    | refl => decide
    | @tail j l _ hstep ih =>
      obtain ⟨d, name, hd, hname, hl⟩ := hstep
      have hmentioned : name ∈ ["n", "inc"] := by
        match j, ih with
        | 0, _ =>
          cases hd
          exact List.mem_cons.2 (.inl (List.mem_singleton.1 hname))
        | 1, _ =>
          cases hd
          exact List.mem_cons_of_mem _ hname
      match l with
      | 0 | 1 => decide
      | 2 =>
        obtain rfl : "shout" = name := Option.some.inj hl.1
        exact absurd hmentioned (by decide)
      | l + 3 => cases hl.1
  have hnot : ¬ counting.MentionsThrough counting.registries.1.active 1 2 := fun h =>
    Nat.lt_irrefl 2 (hthrough 2 h)
  exact ⟨hfirst, hnot, by decide +kernel, check_withBody counting ∅ .default 2 misuse hfirst hnot⟩

end Module
end RowCheck
