/-
**Chains threaded through a `next` link.**

A table of nodes, each with at most one outgoing link. `Linked next a b` is reachability along the
links. `Ranked next rank bound` says that every link climbs in `rank` and stays below `bound`, which
is how acyclicity is carried: a walk of more than `bound` steps cannot exist.

`follow next stop fuel a` walks from `a` until `stop` holds or the links end; its outer `none` is a
walk that did not end within `fuel` nodes. The nodes that it looks at are those linked by
`upTo next stop`, the links that leave the nodes it does not stop at.

* `follow_ne_none` — on ranked links a walk ends.
* `follow_eq_some` / `follow_eq_none` — what the walk found, in terms of `Linked`.
* `follow_unique` — with one reachable stopping node, the walk returns it.
* `follow_to_end` — the walk that stops where the links end returns a reachable end.
* `follow_bounded` — on acyclic links a walk ends after as many nodes as it can reach.
* `Acyclic.link` — a new link to a node whose own link is cleared closes no cycle.
* `follow_found_iff` / `follow_missed_iff` / `follow_congr` — what a walk that ends found, and what it
  depends on.
-/

import Mathlib.Data.Finset.Card
import Mathlib.Logic.Relation
import Mathlib.Order.Basic
import Mathlib.Tactic.Common

namespace Vaudou.Links

variable {α : Type}

/-- Reachability along the links, the starting node included. -/
def Linked (next : α → Option α) : α → α → Prop :=
  Relation.ReflTransGen fun a b => next a = some b

/-- Every link climbs in rank and ends below `bound`. -/
def Ranked (next : α → Option α) (rank : α → Nat) (bound : Nat) : Prop :=
  ∀ a b, next a = some b → rank a < rank b ∧ rank b < bound

/-- Walk from a node until `stop` holds or the links end. -/
def follow (next : α → Option α) (stop : α → Bool) : Nat → α → Option (Option α)
  | 0, _ => none
  | fuel + 1, a =>
    if stop a then some (some a)
    else match next a with
      | some b => follow next stop fuel b
      | none => some none

/-- The nodes that `follow` looks at. -/
def visited (next : α → Option α) (stop : α → Bool) : Nat → α → List α
  | 0, _ => []
  | fuel + 1, a =>
    a :: if stop a then []
      else match next a with
        | some b => visited next stop fuel b
        | none => []

/-- No walk comes back to a node that it left. -/
def Acyclic (next : α → Option α) : Prop :=
  ∀ a, ¬ Relation.TransGen (fun a b => next a = some b) a a

/-- The links that a walk follows which ends where `stop` holds. -/
def upTo (next : α → Option α) (stop : α → Bool) (a : α) : Option α :=
  if stop a then none else next a

section Reachability

variable {next next' : α → Option α} {a b c : α}

theorem Linked.refl (next : α → Option α) (a : α) : Linked next a a :=
  Relation.ReflTransGen.refl

theorem Linked.step (link : next a = some b) (rest : Linked next b c) : Linked next a c :=
  Relation.ReflTransGen.head link rest

theorem Linked.push (path : Linked next a b) (link : next b = some c) : Linked next a c :=
  Relation.ReflTransGen.tail path link

theorem Linked.trans (first : Linked next a b) (second : Linked next b c) : Linked next a c :=
  Relation.ReflTransGen.trans first second

/-- More links reach at least as far. -/
theorem Linked.mono (kept : ∀ x y, next x = some y → next' x = some y) (path : Linked next a b) :
    Linked next' a b :=
  Relation.ReflTransGen.mono (fun x y link => kept x y link) _ _ path

/-- A path to a node needs the links of the other nodes alone. -/
theorem Linked.mono_to (kept : ∀ x y, x ≠ b → next x = some y → next' x = some y)
    (path : Linked next a b) : Linked next' a b := by
  classical
  induction path using Relation.ReflTransGen.head_induction_on with
  | refl => exact Linked.refl _ b
  | @head x y link _ ih =>
    by_cases same : x = b
    · rw [same]
      exact Linked.refl _ b
    · exact ih.step (kept x y same link)

/-- A predicate closed under the links holds all along a path. -/
theorem Linked.closed {P : α → Prop} (keeps : ∀ x y, P x → next x = some y → P y)
    (path : Linked next a b) (start : P a) : P b := by
  induction path with
  | refl => exact start
  | tail _ link ih => exact keeps _ _ ih link

/-- A path either stays or leaves by the one link of its first node. -/
theorem Linked.cases (path : Linked next a c) : a = c ∨ ∃ b, next a = some b ∧ Linked next b c :=
  Relation.ReflTransGen.cases_head path

/-- Of two nodes on the chain of a node one is behind the other. -/
theorem Linked.total (first : Linked next a b) (second : Linked next a c) :
    Linked next b c ∨ Linked next c b :=
  Relation.ReflTransGen.total_of_right_unique
    (fun _ _ _ one other => Option.some.inj (one.symm.trans other)) first second

/-- Nothing is behind a node without a link. -/
theorem Linked.eq_of_last (last : next a = none) (path : Linked next a b) : a = b := by
  rcases path.cases with same | ⟨c, link, -⟩
  · exact same
  · rw [last] at link
    cases link

/-- On acyclic links no node behind a node leads back to it. -/
theorem Acyclic.not_back (acyclic : Acyclic next) (link : next a = some b) (path : Linked next b c) :
    c ≠ a := by
  rintro rfl
  exact acyclic c (Relation.TransGen.head' link path)

/-- **A node whose link is cleared can be linked to** without a cycle. -/
theorem Acyclic.link (acyclic : Acyclic next) {x : α} (cleared : next' x = none)
    (new : ∀ a b, next' a = some b → next a = some b ∨ b = x) : Acyclic next' := by
  -- a node that has a link in turn is not `x`, so all links up to it are old ones
  have old : ∀ {a b}, Relation.TransGen (fun a b => next' a = some b) a b → next' b ≠ none →
      Relation.TransGen (fun a b => next a = some b) a b := by
    have step : ∀ {a b}, next' a = some b → next' b ≠ none → next a = some b := by
      intro a b link goesOn
      refine (new a b link).resolve_right ?_
      rintro rfl
      exact goesOn cleared
    intro a b path
    induction path with
    | single link => exact fun goesOn => .single (step link goesOn)
    | tail _ link ih =>
      exact fun goesOn => (ih (by rw [link]; exact Option.some_ne_none _)).tail (step link goesOn)
  intro a cycle
  obtain ⟨b, link, -⟩ := Relation.TransGen.head'_iff.mp cycle
  exact acyclic a (old cycle (by rw [link]; exact Option.some_ne_none _))

end Reachability

section Walk

variable {next : α → Option α} {stop : α → Bool}

/-- **On ranked links a walk ends.** -/
theorem follow_ne_none {rank : α → Nat} {bound : Nat} (ranked : Ranked next rank bound) :
    ∀ {fuel : Nat} {a : α}, bound - rank a < fuel → follow next stop fuel a ≠ none
  | 0, _, room => by omega
  | fuel + 1, a, room => by
    unfold follow
    split
    · exact Option.some_ne_none _
    · cases link : next a with
      | none => exact Option.some_ne_none _
      | some b =>
        have climbs := ranked a b link
        exact follow_ne_none ranked (by omega)

/-- A node the walk returns is reachable and stops it. -/
theorem follow_eq_some : ∀ {fuel : Nat} {a found : α},
    follow next stop fuel a = some (some found) → Linked next a found ∧ stop found = true
  | 0, _, _, walked => by simp [follow] at walked
  | fuel + 1, a, found, walked => by
    unfold follow at walked
    split at walked
    · rename_i stops
      obtain rfl : a = found := by simpa using walked
      exact ⟨Linked.refl next a, stops⟩
    · cases link : next a with
      | none => simp [link] at walked
      | some b =>
        rw [link] at walked
        obtain ⟨path, stops⟩ := follow_eq_some walked
        exact ⟨path.step link, stops⟩

/-- A walk that runs off the end met no stopping node. -/
theorem follow_eq_none : ∀ {fuel : Nat} {a : α},
    follow next stop fuel a = some none → ∀ c, Linked next a c → stop c = false
  | 0, _, walked => by simp [follow] at walked
  | fuel + 1, a, walked => by
    intro c path
    unfold follow at walked
    split at walked
    · simp at walked
    · rename_i passes
      rcases path.cases with rfl | ⟨b, link, rest⟩
      · simpa using passes
      · rw [link] at walked
        exact follow_eq_none walked c rest

/-- **A walk with one reachable stopping node returns it.** -/
theorem follow_unique {rank : α → Nat} {bound fuel : Nat} (ranked : Ranked next rank bound)
    {a target : α} (room : bound - rank a < fuel) (path : Linked next a target)
    (stops : stop target = true)
    (unique : ∀ c, Linked next a c → stop c = true → c = target) :
    follow next stop fuel a = some (some target) := by
  rcases walked : follow next stop fuel a with _ | _ | found
  · exact absurd walked (follow_ne_none ranked room)
  · have passes := follow_eq_none walked target path
    rw [stops] at passes
    cases passes
  · obtain ⟨reach, hit⟩ := follow_eq_some walked
    rw [unique found reach hit]

/-- **The walk to the end of a chain** returns a reachable node without a link. -/
theorem follow_to_end {rank : α → Nat} {bound fuel : Nat} (ranked : Ranked next rank bound)
    {a : α} (room : bound - rank a < fuel) :
    ∃ last, follow next (fun x => (next x).isNone) fuel a = some (some last) ∧
      Linked next a last ∧ next last = none := by
  rcases walked : follow next (fun x => (next x).isNone) fuel a with _ | _ | found
  · exact absurd walked (follow_ne_none ranked room)
  · exfalso
    -- no reachable node ends the links, so the rank climbs past every bound
    have goesOn : ∀ c, Linked next a c → ∃ d, next c = some d := fun c path =>
      Option.isSome_iff_exists.mp (by simpa using follow_eq_none walked c path)
    have climbs : ∀ n, ∃ c, Linked next a c ∧ n ≤ rank c := by
      intro n
      induction n with
      | zero => exact ⟨a, Linked.refl next a, Nat.zero_le _⟩
      | succ n ih =>
        obtain ⟨c, path, high⟩ := ih
        obtain ⟨d, link⟩ := goesOn c path
        have := ranked c d link
        exact ⟨d, path.push link, by omega⟩
    obtain ⟨c, path, high⟩ := climbs bound
    obtain ⟨d, link⟩ := goesOn c path
    have := ranked c d link
    omega
  · obtain ⟨path, ends⟩ := follow_eq_some walked
    exact ⟨found, rfl, path, by simpa using ends⟩

/-- **On acyclic links a walk ends** after as many nodes as there are to reach. -/
theorem follow_bounded [DecidableEq α] (acyclic : Acyclic next) :
    ∀ {fuel : Nat} {nodes : Finset α} {a : α}, (∀ c, Linked next a c → c ∈ nodes) →
      nodes.card ≤ fuel → follow next stop fuel a ≠ none
  | 0, nodes, a, reach, few => by
    have member := reach a (Linked.refl next a)
    rw [Finset.card_eq_zero.mp (Nat.le_zero.mp few)] at member
    cases member
  | fuel + 1, nodes, a, reach, few => by
    unfold follow
    split
    · exact Option.some_ne_none _
    · cases link : next a with
      | none => exact Option.some_ne_none _
      | some b =>
        -- the rest of the walk stays off `a`
        have behind : ∀ c, Linked next b c → c ∈ nodes.erase a := fun c path =>
          Finset.mem_erase.mpr ⟨acyclic.not_back link path, reach c (path.step link)⟩
        have erased := Finset.card_erase_of_mem (reach a (Linked.refl next a))
        exact follow_bounded acyclic behind (by omega)

/-- What a walk depends on: whether it stops at the nodes it looks at, and the links that it follows. -/
theorem follow_congr {next' : α → Option α} {stop' : α → Bool} : ∀ {fuel : Nat} {a : α},
    (∀ c, Linked (upTo next stop) a c → stop' c = stop c ∧ (stop c = false → next' c = next c)) →
      follow next' stop' fuel a = follow next stop fuel a
  | 0, _, _ => rfl
  | fuel + 1, a, same => by
    obtain ⟨stops, goesOn⟩ := same a (Linked.refl _ a)
    unfold follow
    rw [stops]
    cases here : stop a with
    | true => rfl
    | false =>
      rw [goesOn here]
      cases link : next a with
      | none => rfl
      | some b =>
        refine follow_congr fun c path => same c (path.step ?_)
        rw [upTo, here, if_neg Bool.false_ne_true, link]

theorem upTo_stop {a : α} (stops : stop a = true) : upTo next stop a = none := if_pos stops

theorem upTo_pass {a : α} (passes : stop a = false) : upTo next stop a = next a :=
  if_neg (Bool.not_eq_true _ ▸ passes)

/-- The nodes that a walk looks at are on the chain. -/
theorem Linked.of_upTo {a b : α} (path : Linked (upTo next stop) a b) : Linked next a b := by
  refine path.mono fun x y link => ?_
  rw [upTo] at link
  split at link
  · cases link
  · exact link

/-- The node that a walk finds is one that it looked at. -/
theorem mem_visited : ∀ {fuel : Nat} {a found : α}, follow next stop fuel a = some (some found) →
    found ∈ visited next stop fuel a
  | 0, _, _, walked => by simp [follow] at walked
  | fuel + 1, a, found, walked => by
    unfold follow at walked
    unfold visited
    cases here : stop a with
    | true =>
      rw [if_pos here] at walked
      obtain rfl := Option.some.inj (Option.some.inj walked)
      exact List.mem_cons_self
    | false =>
      rw [here, if_neg Bool.false_ne_true] at walked
      rw [if_neg Bool.false_ne_true]
      cases link : next a with
      | none => simp [link] at walked
      | some b =>
        rw [link] at walked
        exact List.mem_cons_of_mem _ (mem_visited walked)

/-- What a walk looks at, if it finds a node: nodes up to that one. -/
theorem follow_found : ∀ {fuel : Nat} {a found : α}, follow next stop fuel a = some (some found) →
    Linked (upTo next stop) a found ∧ stop found = true
  | 0, _, _, walked => by simp [follow] at walked
  | fuel + 1, a, found, walked => by
    unfold follow at walked
    cases here : stop a with
    | true =>
      rw [if_pos here] at walked
      obtain rfl := Option.some.inj (Option.some.inj walked)
      exact ⟨Linked.refl _ a, here⟩
    | false =>
      rw [here, if_neg Bool.false_ne_true] at walked
      cases link : next a with
      | none => simp [link] at walked
      | some b =>
        rw [link] at walked
        obtain ⟨path, stops⟩ := follow_found walked
        exact ⟨path.step ((upTo_pass here).trans link), stops⟩

/-- A walk that finds nothing looks at a node without a link. -/
theorem follow_missed : ∀ {fuel : Nat} {a : α}, follow next stop fuel a = some none →
    ∃ last, Linked (upTo next stop) a last ∧ stop last = false ∧ next last = none
  | 0, _, walked => by simp [follow] at walked
  | fuel + 1, a, walked => by
    unfold follow at walked
    cases here : stop a with
    | true => simp [here] at walked
    | false =>
      rw [here, if_neg Bool.false_ne_true] at walked
      cases link : next a with
      | none => exact ⟨a, Linked.refl _ a, here, link⟩
      | some b =>
        rw [link] at walked
        obtain ⟨last, path, passes, ends⟩ := follow_missed walked
        exact ⟨last, path.step ((upTo_pass here).trans link), passes, ends⟩

/-- **The walk to the end of a chain** finds it, if it ends. -/
theorem follow_last {fuel : Nat} {a : α} (ends : follow next (fun x => (next x).isNone) fuel a ≠ none) :
    ∃ last, follow next (fun x => (next x).isNone) fuel a = some (some last) ∧ Linked next a last ∧
      next last = none := by
  rcases walked : follow next (fun x => (next x).isNone) fuel a with _ | _ | last
  · exact absurd walked ends
  · obtain ⟨last, -, passes, none_⟩ := follow_missed walked
    rw [none_] at passes
    cases passes
  · obtain ⟨path, stops⟩ := follow_eq_some walked
    exact ⟨last, rfl, path, Option.isNone_iff_eq_none.mp stops⟩

/-- A node that a walk looks at and stops at is the last that it looks at. -/
theorem Linked.last_of_stop {a found c : α} (path : Linked (upTo next stop) a found)
    (stops : stop found = true) (looks : Linked (upTo next stop) a c) :
    Linked (upTo next stop) c found := by
  rcases path.total looks with behind | before
  · rw [behind.eq_of_last (upTo_stop stops)]
    exact Linked.refl _ c
  · exact before

/-- **A walk that ends finds the node** that it looks at and stops at. -/
theorem follow_found_iff {fuel : Nat} {a found : α} (ends : follow next stop fuel a ≠ none) :
    follow next stop fuel a = some (some found) ↔
      Linked (upTo next stop) a found ∧ stop found = true := by
  refine ⟨follow_found, fun ⟨path, stops⟩ => ?_⟩
  rcases walked : follow next stop fuel a with _ | _ | other
  · exact absurd walked ends
  · have passes := follow_eq_none walked found path.of_upTo
    rw [stops] at passes
    cases passes
  · obtain ⟨path', stops'⟩ := follow_found walked
    have behind := path.last_of_stop stops path'
    rw [behind.eq_of_last (upTo_stop stops')]

/-- **A walk that ends finds nothing** exactly if it stops nowhere on the chain. -/
theorem follow_missed_iff {fuel : Nat} {a : α} (ends : follow next stop fuel a ≠ none) :
    follow next stop fuel a = some none ↔ ∀ c, Linked next a c → stop c = false := by
  refine ⟨follow_eq_none, fun passes => ?_⟩
  rcases walked : follow next stop fuel a with _ | _ | found
  · exact absurd walked ends
  · rfl
  · obtain ⟨path, stops⟩ := follow_eq_some walked
    rw [passes found path] at stops
    cases stops

end Walk

end Vaudou.Links
