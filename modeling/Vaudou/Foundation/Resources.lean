/-
**Resources that are created and destroyed.**

A ledger lists what was created and what was destroyed, oldest first. It accounts for the resources
that are held if nothing was created twice and what was created is what was destroyed together with what
is held, each as often. Whatever was created and is not held any more has then been destroyed.

* `Ledger.Accounts.create`, `Ledger.Accounts.destroy` — what the two operations do to the resources held.
* `Ledger.Accounts.once` — what is destroyed is destroyed once.
* `Ledger.Sound` — the same for a ledger of which the resources held are not named.
-/

import Mathlib.Data.List.Nodup
import Mathlib.Data.List.Perm.Basic
import Mathlib.Tactic.Common

namespace Vaudou.Resources

variable {R : Type}

/-- What was created and what was destroyed, oldest first. -/
structure Ledger (R : Type) where
  created : List R
  destroyed : List R
deriving DecidableEq, Repr

namespace Ledger

/-- Nothing yet. -/
def empty : Ledger R := ⟨[], []⟩

/-- Resources are created. -/
def create (ledger : Ledger R) (rs : List R) : Ledger R :=
  { ledger with created := ledger.created ++ rs }

/-- Resources are destroyed. -/
def destroy (ledger : Ledger R) (rs : List R) : Ledger R :=
  { ledger with destroyed := ledger.destroyed ++ rs }

/-- None of the resources exists yet, and no two of them are the same. -/
def Fresh (ledger : Ledger R) (rs : List R) : Prop := rs.Nodup ∧ ∀ r ∈ rs, r ∉ ledger.created

instance [DecidableEq R] (ledger : Ledger R) (rs : List R) : Decidable (ledger.Fresh rs) :=
  inferInstanceAs (Decidable (_ ∧ _))

@[simp] theorem create_created (ledger : Ledger R) (rs : List R) :
    (ledger.create rs).created = ledger.created ++ rs := rfl

@[simp] theorem create_destroyed (ledger : Ledger R) (rs : List R) :
    (ledger.create rs).destroyed = ledger.destroyed := rfl

@[simp] theorem destroy_created (ledger : Ledger R) (rs : List R) :
    (ledger.destroy rs).created = ledger.created := rfl

@[simp] theorem destroy_destroyed (ledger : Ledger R) (rs : List R) :
    (ledger.destroy rs).destroyed = ledger.destroyed ++ rs := rfl

/-- **The ledger accounts for the resources held.** -/
structure Accounts (ledger : Ledger R) (held : List R) : Prop where
  nodup : ledger.created.Nodup
  balance : ledger.created.Perm (ledger.destroyed ++ held)

section Accounting

variable {ledger : Ledger R} {held rest rs : List R} {r : R}

theorem Accounts.empty : (Ledger.empty : Ledger R).Accounts [] := ⟨List.nodup_nil, List.Perm.nil⟩

/-- The order in which the resources are held does not matter. -/
theorem Accounts.perm (accounts : ledger.Accounts held) (same : held.Perm rest) :
    ledger.Accounts rest :=
  ⟨accounts.nodup, accounts.balance.trans (same.append_left _)⟩

/-- **Resources that are created** are held. -/
theorem Accounts.create (accounts : ledger.Accounts held) (fresh : ledger.Fresh rs) :
    (ledger.create rs).Accounts (held ++ rs) where
  nodup := by
    refine List.Nodup.append accounts.nodup fresh.1 ?_
    intro r old new
    exact fresh.2 r new old
  balance := by
    rw [create_created, create_destroyed, ← List.append_assoc]
    exact accounts.balance.append_right rs

/-- **Resources that are held can be destroyed**, and are not held any more. -/
theorem Accounts.destroy (accounts : ledger.Accounts held) (split : held.Perm (rs ++ rest)) :
    (ledger.destroy rs).Accounts rest where
  nodup := accounts.nodup
  balance := by
    rw [destroy_created, destroy_destroyed, List.append_assoc]
    exact accounts.balance.trans (split.append_left _)

/-- No resource is held twice, and none that is held has been destroyed. -/
theorem Accounts.nodup_all (accounts : ledger.Accounts held) : (ledger.destroyed ++ held).Nodup :=
  accounts.balance.nodup_iff.mp accounts.nodup

theorem Accounts.held_nodup (accounts : ledger.Accounts held) : held.Nodup :=
  accounts.nodup_all.of_append_right

theorem Accounts.not_destroyed (accounts : ledger.Accounts held) (member : r ∈ held) :
    r ∉ ledger.destroyed :=
  fun gone => List.disjoint_of_nodup_append accounts.nodup_all gone member

/-- **What is destroyed is destroyed once.** -/
theorem Accounts.once [DecidableEq R] (accounts : ledger.Accounts held) (gone : r ∈ ledger.destroyed) :
    ledger.destroyed.count r = 1 :=
  List.count_eq_one_of_mem accounts.nodup_all.of_append_left gone

end Accounting

/-- **The ledger is sound**: it accounts for some resources that are held. -/
def Sound (ledger : Ledger R) : Prop := ∃ held, ledger.Accounts held

section Soundness

variable {ledger : Ledger R} {r : R}

theorem Sound.empty : (Ledger.empty : Ledger R).Sound := ⟨[], Accounts.empty⟩

theorem Sound.create {rs : List R} (sound : ledger.Sound) (fresh : ledger.Fresh rs) :
    (ledger.create rs).Sound := by
  obtain ⟨held, accounts⟩ := sound
  exact ⟨held ++ rs, accounts.create fresh⟩

/-- **What was created and is not destroyed yet can be destroyed.** -/
theorem Sound.destroy [DecidableEq R] (sound : ledger.Sound) (made : r ∈ ledger.created)
    (live : r ∉ ledger.destroyed) : (ledger.destroy [r]).Sound := by
  obtain ⟨held, accounts⟩ := sound
  have member : r ∈ held :=
    (List.mem_append.mp (accounts.balance.mem_iff.mp made)).resolve_left live
  exact ⟨held.erase r, accounts.destroy (List.perm_cons_erase member)⟩

theorem Sound.once [DecidableEq R] (sound : ledger.Sound) (gone : r ∈ ledger.destroyed) :
    ledger.destroyed.count r = 1 := by
  obtain ⟨held, accounts⟩ := sound
  exact accounts.once gone

end Soundness

end Ledger

end Vaudou.Resources
