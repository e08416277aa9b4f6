import Mathlib.Data.List.Perm.Subperm
import Mathlib.Logic.Relation
import RowCheck.Dependency.Components
import RowCheck.Proofs.SortedMap

/-!
The search for strongly connected components. While a node is being visited it is open; every node
on the stack comes from an open node below it and leads back to one. A node that leads back to no
node below it therefore closes a component: what lies on the stack from it upwards.
-/
namespace RowCheck

open Relation

namespace DependencyGraph

/-- Whether one node leads to another. -/
def Leads (g : DependencyGraph) (a b : Nat) : Prop := b ∈ g.next a

/-- Whether one node leads to another in any number of steps. -/
def Reaches (g : DependencyGraph) : Nat → Nat → Prop := ReflTransGen g.Leads

/-- Whether all nodes that are led to are nodes of the graph. -/
def Closed (g : DependencyGraph) : Prop := ∀ a b, g.Leads a b → b < g.size

/-- Whether some groups of nodes are strongly connected components, each after those it leads to. -/
structure Condensed (g : DependencyGraph) (components : List (List Nat)) : Prop where
  nonempty : ∀ c ∈ components, c ≠ []
  strong : ∀ c ∈ components, ∀ a ∈ c, ∀ b, b ∈ c ↔ g.Reaches a b ∧ g.Reaches b a
  ordered : components.Pairwise fun c d => ∀ a ∈ c, ∀ b ∈ d, ¬ g.Reaches a b

variable {g : DependencyGraph}

theorem Reaches.mem_of_closed {nodes : List Nat} (hclosed : ∀ a ∈ nodes, ∀ b, g.Leads a b → b ∈ nodes)
    {a b : Nat} (h : g.Reaches a b) (ha : a ∈ nodes) : b ∈ nodes := by
  induction h with
  | refl => exact ha
  | tail _ hbc ih => exact hclosed _ ih _ hbc

/-- A group of nodes that all reach each other, and reach beyond it only complete components, is the
next component. -/
theorem Condensed.append {components : List (List Nat)} (h : g.Condensed components) {c : List Nat}
    (hne : c ≠ []) (hclosed : ∀ a ∈ components.flatten, ∀ b, g.Leads a b → b ∈ components.flatten)
    (hnew : ∀ a ∈ c, ∀ b, g.Leads a b → b ∈ c ∨ b ∈ components.flatten)
    (hdisjoint : ∀ a ∈ c, a ∉ components.flatten)
    (hstrong : ∀ a ∈ c, ∀ b ∈ c, g.Reaches a b) : g.Condensed (components ++ [c]) := by
  have beyond : ∀ a ∈ c, ∀ b, g.Reaches a b → b ∈ c ++ components.flatten := by
    intro a ha b hab
    apply hab.mem_of_closed _ (List.mem_append_left _ ha)
    intro x hx y hxy
    rcases List.mem_append.1 hx with hx | hx
    · exact List.mem_append.2 (hnew x hx y hxy)
    · exact List.mem_append_right _ (hclosed x hx y hxy)
  constructor
  · intro d hd
    rcases List.mem_append.1 hd with hd | hd
    · exact h.nonempty d hd
    · exact List.mem_singleton.1 hd ▸ hne
  · intro d hd a ha b
    rcases List.mem_append.1 hd with hd | hd
    · exact h.strong d hd a ha b
    · obtain rfl := List.mem_singleton.1 hd
      constructor
      · exact fun hb => ⟨hstrong a ha b hb, hstrong b hb a ha⟩
      · intro ⟨hab, hba⟩
        rcases List.mem_append.1 (beyond a ha b hab) with hb | hb
        · exact hb
        · exact absurd (hba.mem_of_closed hclosed hb) (hdisjoint a ha)
  · rw [List.pairwise_append]
    refine ⟨h.ordered, List.pairwise_singleton _ _, ?_⟩
    intro d hd e he a ha b hb hab
    obtain rfl := List.mem_singleton.1 he
    have ha : a ∈ components.flatten := List.mem_flatten.2 ⟨d, hd, ha⟩
    exact hdisjoint b hb (hab.mem_of_closed hclosed ha)

end DependencyGraph

namespace Search

/-- Whether a node has been visited. -/
def Seen (s : Search) (n : Nat) : Prop := (s.order.get? n).isSome = true

/-- When a node was visited. -/
def place (s : Search) (n : Nat) : Nat := (s.order.get? n).getD 0

/-- How many nodes have been visited. -/
def count (s : Search) : Nat := s.order.entries.length

/-- The state after a node has been entered. -/
def enter (s : Search) (n : Nat) : Search :=
  { s with order := s.order.insert n s.count, stack := n :: s.stack }

/-- The state after the component of a node has been taken off the stack. -/
def complete (s : Search) (n : Nat) : Search :=
  { s with
    stack := (s.stack.dropWhile (fun k => k != n)).drop 1
    components := s.components ++ [s.stack.takeWhile (fun k => k != n) ++ [n]] }

variable {s s' s'' : Search} {n : Nat}

theorem get?_eq_place (h : s.Seen n) : s.order.get? n = some (s.place n) := by
  obtain ⟨i, hi⟩ := Option.isSome_iff_exists.1 h
  rw [place, hi]
  rfl

theorem get?_eq_none (h : ¬ s.Seen n) : s.order.get? n = none := by
  simpa [Seen] using h

theorem seen_enter {k : Nat} : (s.enter n).Seen k ↔ k = n ∨ s.Seen k := by
  simp only [Seen, enter, SortedMap.get?_insert]
  by_cases hk : n = k
  · simp [hk]
  · simp [hk, Ne.symm hk]

@[simp] theorem place_enter_self : (s.enter n).place n = s.count := by
  simp [place, enter]

theorem place_enter_of_ne {k : Nat} (hk : k ≠ n) : (s.enter n).place k = s.place k := by
  simp [place, enter, SortedMap.get?_insert, Ne.symm hk]

theorem count_enter (h : ¬ s.Seen n) : (s.enter n).count = s.count + 1 :=
  SortedMap.length_insert _ (get?_eq_none h)

/-- The numbers of nodes and their places, so that a node that was not visited leaves room. -/
theorem count_lt {size : Nat} (hsize : ∀ k, s.Seen k → k < size) (h : ¬ s.Seen n) (hn : n < size) :
    s.count < size := by
  have hnodup : (n :: s.order.keys).Nodup := by
    refine List.nodup_cons.2 ⟨fun hmem => h ?_, s.order.nodup_keys⟩
    exact SortedMap.isSome_get?_iff_mem_keys.2 hmem
  have hsub : n :: s.order.keys ⊆ List.range size := by
    intro k hk
    rw [List.mem_range]
    rcases List.mem_cons.1 hk with rfl | hk
    · exact hn
    · exact hsize k (SortedMap.isSome_get?_iff_mem_keys.2 hk)
  have hle := (List.subperm_of_subset hnodup hsub).length_le
  simp only [List.length_cons, List.length_range, SortedMap.keys, List.length_map] at hle
  exact hle

/-- What a part of the search adds: it puts nodes on top of the stack, and visits nodes that were not
visited. -/
structure Extends (s s' : Search) (new : List Nat) : Prop where
  stack : s'.stack = new ++ s.stack
  seen : ∀ n, s.Seen n → s'.Seen n
  place : ∀ n, s.Seen n → s'.place n = s.place n
  later : ∀ n, ¬ s.Seen n → s'.Seen n → s.count ≤ s'.place n
  count : s.count ≤ s'.count

theorem Extends.refl (s : Search) : s.Extends s [] :=
  ⟨rfl, fun _ h => h, fun _ _ => rfl, fun _ h h' => absurd h' h, Nat.le_refl _⟩

theorem Extends.trans {new new' : List Nat} (h : s.Extends s' new) (h' : s'.Extends s'' new') :
    s.Extends s'' (new' ++ new) where
  stack := by rw [h'.stack, h.stack, List.append_assoc]
  seen n hn := h'.seen n (h.seen n hn)
  place n hn := by rw [h'.place n (h.seen n hn), h.place n hn]
  later n hn hn'' := by
    by_cases hn' : s'.Seen n
    · rw [h'.place n hn']
      exact h.later n hn hn'
    · have := h'.later n hn' hn''
      have := h.count
      omega
  count := Nat.le_trans h.count h'.count

theorem extends_enter (h : ¬ s.Seen n) : s.Extends (s.enter n) [n] where
  stack := rfl
  seen k hk := seen_enter.2 (.inr hk)
  place k hk := place_enter_of_ne fun e => h (e ▸ hk)
  later k hk hk' := by
    rcases seen_enter.1 hk' with rfl | hk'
    · simp
    · exact absurd hk' hk
  count := by
    rw [count_enter h]
    omega

end Search

open DependencyGraph

/-- What holds all through a search, where `opened` are the nodes that are being visited: what is not
open has been searched, and the nodes on the stack hang together by way of the open ones. -/
structure Search.Explored (g : DependencyGraph) (opened : List Nat) (s : Search) : Prop where
  seen_lt : ∀ n, s.Seen n → n < g.size
  place_lt : ∀ n, s.Seen n → s.place n < s.count
  seen_iff : ∀ n, s.Seen n ↔ n ∈ s.stack ++ s.components.flatten
  nodup : (s.stack ++ s.components.flatten).Nodup
  descending : s.stack.Pairwise fun a b => s.place b < s.place a
  opened_stack : ∀ a ∈ opened, a ∈ s.stack
  searched : ∀ a, s.Seen a → a ∉ opened → ∀ b, g.Leads a b → s.Seen b
  complete_closed : ∀ a ∈ s.components.flatten, ∀ b, g.Leads a b → b ∈ s.components.flatten
  to_opened : ∀ a ∈ s.stack, ∃ b ∈ opened, s.place b ≤ s.place a ∧ g.Reaches a b
  of_opened : ∀ b ∈ opened, ∀ a ∈ s.stack, s.place b ≤ s.place a → g.Reaches b a
  condensed : g.Condensed s.components

namespace Search.Explored

variable {opened : List Nat} {s : Search} {n : Nat}

theorem place_lt_of_append (h : s.Explored g opened) {new base : List Nat}
    (hs : s.stack = new ++ base) {a b : Nat} (ha : a ∈ new) (hb : b ∈ base) :
    s.place b < s.place a := by
  have hd := h.descending
  rw [hs, List.pairwise_append] at hd
  exact hd.2.2 a ha b hb

theorem seen_of_mem_stack (h : s.Explored g opened) {a : Nat} (ha : a ∈ s.stack) : s.Seen a :=
  (h.seen_iff a).2 (List.mem_append_left _ ha)

theorem ne_of_mem_stack (h : s.Explored g opened) (hn : ¬ s.Seen n) {a : Nat} (ha : a ∈ s.stack) :
    a ≠ n := fun e => hn (e ▸ h.seen_of_mem_stack ha)

/-- A node that is entered becomes the innermost open one. -/
theorem enter (h : s.Explored g opened) (hn : ¬ s.Seen n) (hlt : n < g.size)
    (hreach : ∀ a ∈ opened, g.Reaches a n) : (s.enter n).Explored g (n :: opened) where
  seen_lt k hk := by
    rcases seen_enter.1 hk with rfl | hk
    · exact hlt
    · exact h.seen_lt k hk
  place_lt k hk := by
    rw [count_enter hn]
    by_cases he : k = n
    · subst he
      simp
    · have := h.place_lt k ((seen_enter.1 hk).resolve_left he)
      rw [place_enter_of_ne he]
      omega
  seen_iff k := by
    rw [seen_enter, h.seen_iff]
    simp [Search.enter]
  nodup := by
    show (n :: (s.stack ++ s.components.flatten)).Nodup
    exact List.nodup_cons.2 ⟨fun hmem => hn ((h.seen_iff n).2 hmem), h.nodup⟩
  descending := by
    show (n :: s.stack).Pairwise _
    rw [List.pairwise_cons]
    constructor
    · intro b hb
      rw [place_enter_of_ne (h.ne_of_mem_stack hn hb), place_enter_self]
      exact h.place_lt b (h.seen_of_mem_stack hb)
    · refine h.descending.imp_of_mem fun {a b} ha hb hab => ?_
      rwa [place_enter_of_ne (h.ne_of_mem_stack hn ha), place_enter_of_ne (h.ne_of_mem_stack hn hb)]
  opened_stack a ha := by
    rcases List.mem_cons.1 ha with rfl | ha
    · exact List.mem_cons_self
    · exact List.mem_cons_of_mem _ (h.opened_stack a ha)
  searched a ha hopen b hab := by
    simp only [List.mem_cons, not_or] at hopen
    exact seen_enter.2 (.inr (h.searched a ((seen_enter.1 ha).resolve_left hopen.1) hopen.2 b hab))
  complete_closed := h.complete_closed
  to_opened a ha := by
    rcases List.mem_cons.1 ha with rfl | ha
    · exact ⟨a, List.mem_cons_self, Nat.le_refl _, .refl⟩
    · obtain ⟨b, hb, hle, hab⟩ := h.to_opened a ha
      refine ⟨b, List.mem_cons_of_mem _ hb, ?_, hab⟩
      rwa [place_enter_of_ne (h.ne_of_mem_stack hn ha),
        place_enter_of_ne (h.ne_of_mem_stack hn (h.opened_stack b hb))]
  of_opened b hb a ha hle := by
    rcases List.mem_cons.1 hb with hbn | hbo
    · -- nothing on the stack was visited later
      rcases List.mem_cons.1 ha with han | has
      · rw [hbn, han]
        exact .refl
      · rw [hbn, place_enter_self, place_enter_of_ne (h.ne_of_mem_stack hn has)] at hle
        have := h.place_lt a (h.seen_of_mem_stack has)
        omega
    · rcases List.mem_cons.1 ha with han | has
      · exact han ▸ hreach b hbo
      · rw [place_enter_of_ne (h.ne_of_mem_stack hn has),
          place_enter_of_ne (h.ne_of_mem_stack hn (h.opened_stack b hbo))] at hle
        exact h.of_opened b hbo a has hle
  condensed := h.condensed

variable {new base : List Nat}

/-- From the innermost open node upwards, nothing on the stack was visited before it. -/
theorem place_le_of_not_mem (h : s.Explored g (n :: opened)) (hs : s.stack = new ++ n :: base) {a : Nat}
    (ha : a ∈ s.stack) (hab : a ∉ base) : s.place n ≤ s.place a := by
  rw [hs, List.mem_append, List.mem_cons] at ha
  rcases ha with ha | rfl | ha
  · exact Nat.le_of_lt (h.place_lt_of_append hs ha List.mem_cons_self)
  · exact Nat.le_refl _
  · exact absurd ha hab

/-- All open nodes reach what the innermost one leads to. -/
theorem reaches_of_leads (h : s.Explored g (n :: opened)) (hs : s.stack = new ++ n :: base)
    (hopened : ∀ a ∈ opened, a ∈ base) {k : Nat} (hk : g.Leads n k) :
    ∀ a ∈ n :: opened, g.Reaches a k := by
  intro a ha
  refine (h.of_opened a ha n (by simp [hs]) ?_).tail hk
  rcases List.mem_cons.1 ha with rfl | ha
  · exact Nat.le_refl _
  · exact Nat.le_of_lt (h.place_lt_of_append (List.append_cons .. ▸ hs) (by simp) (hopened a ha))

/-- A node that leads back to one below it is left open no longer, and stays on the stack. -/
theorem leave (h : s.Explored g (n :: opened)) (hs : s.stack = new ++ n :: base)
    (hnext : ∀ b, g.Leads n b → s.Seen b) {low : Nat} (hlow : low ∈ base) (hreach : g.Reaches n low) : s.Explored g opened := by
  have hs' : s.stack = (new ++ [n]) ++ base := by simp [hs]
  have hplace : ∀ b ∈ base, s.place b < s.place n := fun b hb =>
    h.place_lt_of_append hs' (by simp) hb
  refine { h with opened_stack := ?_, searched := ?_, to_opened := ?_, of_opened := ?_ }
  · exact fun a ha => h.opened_stack a (List.mem_cons_of_mem _ ha)
  · intro a ha hopen b hab
    by_cases he : a = n
    · exact hnext b (he ▸ hab)
    · exact h.searched a ha (by simp [he, hopen]) b hab
  · intro a ha
    obtain ⟨b, hb, hle, hab⟩ := h.to_opened a ha
    rcases List.mem_cons.1 hb with rfl | hb
    · obtain ⟨c, hc, hle', hlc⟩ := h.to_opened low (by simp [hs, hlow])
      have hlt := hplace low hlow
      rcases List.mem_cons.1 hc with rfl | hc
      · omega
      · exact ⟨c, hc, by omega, hab.trans (hreach.trans hlc)⟩
    · exact ⟨b, hb, hle, hab⟩
  · exact fun b hb => h.of_opened b (List.mem_cons_of_mem _ hb)

theorem complete_eq (hs : s.stack = new ++ n :: base) (hn : n ∉ new) :
    s.complete n = { s with stack := base, components := s.components ++ [new ++ [n]] } := by
  have hdrop : s.stack.dropWhile (fun k => k != n) = n :: base := by
    rw [hs, List.dropWhile_append_of_pos, List.dropWhile_cons_of_neg (by simp)]
    exact fun k hk => by simpa using fun e : k = n => hn (e ▸ hk)
  have htake : s.stack.takeWhile (fun k => k != n) = new := by
    rw [hs, List.takeWhile_append_of_pos, List.takeWhile_cons_of_neg (by simp), List.append_nil]
    exact fun k hk => by simpa using fun e : k = n => hn (e ▸ hk)
  rw [Search.complete, hdrop, htake]
  rfl

/-- What lies on the stack from an innermost open node upwards that leads back to none below it: its
edges stay within or go to complete components. -/
theorem leads_of_mem_group (h : s.Explored g (n :: opened)) (hs : s.stack = (new ++ [n]) ++ base)
    (hopened : ∀ a ∈ opened, a ∈ base) (hnext : ∀ b, g.Leads n b → s.Seen b)
    (hback : ∀ a ∈ new ++ [n], ∀ b ∈ base, ¬ g.Leads a b) :
    ∀ a ∈ new ++ [n], ∀ b, g.Leads a b → b ∈ new ++ [n] ∨ b ∈ s.components.flatten := by
  intro a ha b hab
  have hb : s.Seen b := by
    by_cases he : a = n
    · exact hnext b (he ▸ hab)
    · refine h.searched a (h.seen_of_mem_stack (hs ▸ List.mem_append_left _ ha)) ?_ b hab
      simp only [List.mem_cons, he, false_or]
      exact fun hopen => Nat.lt_irrefl _ (h.place_lt_of_append hs ha (hopened a hopen))
  have hmem := (h.seen_iff b).1 hb
  rw [hs] at hmem
  simp only [List.mem_append] at hmem ⊢
  rcases hmem with (hmem | hmem) | hmem
  · exact .inl hmem
  · exact absurd hab (hback a ha b hmem)
  · exact .inr hmem

/-- Such a part of the stack is strongly connected. -/
theorem reaches_of_mem_group (h : s.Explored g (n :: opened)) (hs : s.stack = (new ++ [n]) ++ base)
    (hopened : ∀ a ∈ opened, a ∈ base) (hnew : ∀ a ∈ new ++ [n], ∀ b, g.Leads a b →
      b ∈ new ++ [n] ∨ b ∈ s.components.flatten) :
    ∀ a ∈ new ++ [n], ∀ b ∈ new ++ [n], g.Reaches a b := by
  have hgroup : ∀ a ∈ new ++ [n], a ∈ s.stack := fun a ha => hs ▸ List.mem_append_left _ ha
  have from_n : ∀ b ∈ new ++ [n], g.Reaches n b := by
    intro b hb
    refine h.of_opened n List.mem_cons_self b (hgroup b hb) (h.place_le_of_not_mem
      (hs.trans (List.append_cons ..).symm) (hgroup b hb) fun hbase => ?_)
    exact Nat.lt_irrefl _ (h.place_lt_of_append hs hb hbase)
  have to_n : ∀ a ∈ new ++ [n], g.Reaches a n := by
    intro a ha
    obtain ⟨b, hb, -, hab⟩ := h.to_opened a (hgroup a ha)
    rcases List.mem_cons.1 hb with rfl | hb
    · exact hab
    · -- otherwise it would lead to the stack below
      have hmem : b ∈ (new ++ [n]) ++ s.components.flatten := by
        apply hab.mem_of_closed _ (List.mem_append_left _ ha)
        intro x hx y hxy
        rcases List.mem_append.1 hx with hx | hx
        · exact List.mem_append.2 (hnew x hx y hxy)
        · exact List.mem_append_right _ (h.complete_closed x hx y hxy)
      have hbase := hopened b hb
      rcases List.mem_append.1 hmem with hmem | hmem
      · exact absurd (h.place_lt_of_append hs hmem hbase) (Nat.lt_irrefl _)
      · have hstack : b ∈ s.stack := hs ▸ List.mem_append_right _ hbase
        exact absurd rfl ((List.nodup_append.1 h.nodup).2.2 b hstack b hmem)
  exact fun a ha b hb => (to_n a ha).trans (from_n b hb)

/-- A node that leads back to none below it is the first of its component. -/
theorem complete (h : s.Explored g (n :: opened)) (hs : s.stack = new ++ n :: base)
    (hopened : ∀ a ∈ opened, a ∈ base) (hnext : ∀ b, g.Leads n b → s.Seen b)
    (hback : ∀ a ∈ new ++ [n], ∀ b ∈ base, ¬ g.Leads a b) :
    (s.complete n).Explored g opened := by
  have hs' : s.stack = (new ++ [n]) ++ base := by simp [hs]
  have hnew := h.leads_of_mem_group hs' hopened hnext hback
  have hn : n ∉ new := fun hmem =>
    Nat.lt_irrefl _ (h.place_lt_of_append hs hmem List.mem_cons_self)
  have hflat : (s.components ++ [new ++ [n]]).flatten = s.components.flatten ++ (new ++ [n]) := by
    simp
  rw [complete_eq hs hn]
  constructor
  case seen_lt => exact h.seen_lt
  case place_lt => exact h.place_lt
  case seen_iff =>
    intro k
    refine (h.seen_iff k).trans ?_
    simp only [hs', hflat, List.mem_append]
    tauto
  case nodup =>
    have hnd := h.nodup
    rw [hs', List.append_assoc] at hnd
    rw [hflat, ← List.append_assoc]
    exact List.perm_append_comm.nodup_iff.1 hnd
  case descending =>
    have hd := h.descending
    rw [hs', List.pairwise_append] at hd
    exact hd.2.1
  case opened_stack => exact hopened
  case searched =>
    intro a ha hopen b hab
    by_cases he : a = n
    · exact hnext b (he ▸ hab)
    · exact h.searched a ha (by simp [he, hopen]) b hab
  case complete_closed =>
    intro a ha b hab
    rw [hflat] at ha ⊢
    rcases List.mem_append.1 ha with ha | ha
    · exact List.mem_append_left _ (h.complete_closed a ha b hab)
    · exact List.mem_append.2 (hnew a ha b hab).symm
  case to_opened =>
    intro a ha
    obtain ⟨b, hb, hle, hab⟩ := h.to_opened a (hs' ▸ List.mem_append_right _ ha)
    rcases List.mem_cons.1 hb with rfl | hb
    · have := h.place_lt_of_append hs' (List.mem_append_right new (List.mem_singleton_self b)) ha
      omega
    · exact ⟨b, hb, hle, hab⟩
  case of_opened =>
    exact fun b hb a ha => h.of_opened b (List.mem_cons_of_mem _ hb) a
      (hs' ▸ List.mem_append_right _ ha)
  case condensed =>
    refine h.condensed.append (by simp) h.complete_closed hnew (fun a ha hmem => ?_)
      (h.reaches_of_mem_group hs' hopened hnew)
    have hstack : a ∈ s.stack := hs' ▸ List.mem_append_left _ ha
    exact absurd rfl ((List.nodup_append.1 h.nodup).2.2 a hstack a hmem)

/-- With nothing open there is nothing on the stack. -/
theorem stack_eq_nil (h : s.Explored g []) : s.stack = [] := by
  rw [List.eq_nil_iff_forall_not_mem]
  intro a ha
  obtain ⟨b, hb, -⟩ := h.to_opened a ha
  cases hb

end Search.Explored

end RowCheck
