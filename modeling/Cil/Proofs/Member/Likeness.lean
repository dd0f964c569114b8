import Cil.Member.Identity
import Mathlib.Data.List.Forall2

/-!
# Likeness of members

The likenesses of methods and members as relations: which parameters are compared, that it does not
matter which of two members is compared with the other, and that methods alike to one method are
alike. A method is like itself as long as the types of its parameters are there.
-/

namespace Cil

variable {t : TypeTable}

theorem Param.sameShape_iff {p q : Param} :
    p.sameShape t q = true ↔
      p.name = q.name ∧ ∃ token, t.token? p.type = some token ∧ t.token? q.type = some token := by
  rw [sameShape, Bool.and_eq_true, beq_iff_eq]
  refine and_congr_right fun _ => ?_
  cases t.token? p.type with
  | none => simp
  | some a =>
    cases t.token? q.type with
    | none => simp
    | some b =>
      constructor
      · intro same
        exact ⟨b, congrArg some (beq_iff_eq.1 same), rfl⟩
      · rintro ⟨token, ha, hb⟩
        exact beq_iff_eq.2 (Option.some.inj (ha.trans hb.symm))

theorem Param.sameShape_symm {p q : Param} (like : p.sameShape t q = true) :
    q.sameShape t p = true := by
  obtain ⟨names, token, hp, hq⟩ := sameShape_iff.1 like
  exact sameShape_iff.2 ⟨names.symm, token, hq, hp⟩

theorem Param.sameShape_trans {p q r : Param} (first : p.sameShape t q = true)
    (second : q.sameShape t r = true) : p.sameShape t r = true := by
  obtain ⟨names, token, hp, hq⟩ := sameShape_iff.1 first
  obtain ⟨names', token', hq', hr⟩ := sameShape_iff.1 second
  obtain rfl : token = token' := Option.some.inj (hq.symm.trans hq')
  exact sameShape_iff.2 ⟨names.trans names', token, hp, hr⟩

theorem TypeTable.isLive_iff {id : TypeId} :
    t.isLive id = true ↔ ∃ token, t.token? id = some token := by
  rw [isLive, token?, def?]
  cases t.get? id with
  | none => simp
  | some e => simp

theorem Param.sameShape_self_iff {p : Param} :
    p.sameShape t p = true ↔ t.isLive p.type = true := by
  rw [sameShape_iff, TypeTable.isLive_iff]
  simp

namespace Method

theorem sameShape_iff {m n : Method} :
    m.sameShape t n = true ↔
      List.Forall₂ (fun p q => p.sameShape t q = true) m.params.toList n.params.toList := by
  rw [sameShape, Bool.and_eq_true, beq_iff_eq, List.all_eq_true, List.forall₂_iff_zip]
  refine and_congr Iff.rfl ⟨fun all p q mem => all (p, q) mem, ?_⟩
  rintro all ⟨p, q⟩ mem
  exact all mem

theorem sameShape_symm {m n : Method} (like : m.sameShape t n = true) :
    n.sameShape t m = true :=
  sameShape_iff.2 ((sameShape_iff.1 like).imp fun _ _ => Param.sameShape_symm).flip

theorem sameShape_trans {m n k : Method} (first : m.sameShape t n = true)
    (second : n.sameShape t k = true) : m.sameShape t k = true := by
  rw [sameShape_iff] at first second ⊢
  generalize m.params.toList = ps at first ⊢
  generalize n.params.toList = qs at first second
  generalize k.params.toList = rs at second ⊢
  induction first generalizing rs with
  | nil => exact second
  | cons head _ ih =>
    cases second with
    | cons head' rest => exact .cons (Param.sameShape_trans head head') (ih _ rest)

theorem sameShape_self_iff {m : Method} :
    m.sameShape t m = true ↔ ∀ p ∈ m.params, t.isLive p.type = true := by
  rw [sameShape_iff, List.forall₂_same]
  simp only [Param.sameShape_self_iff, Array.mem_toList_iff]

end Method

namespace Member

theorem sameSignature_iff {a b : Member} :
    a.sameSignature t b = true ↔
      a.kind = b.kind ∧ a.name = b.name ∧
        ∀ m n, a = .method m → b = .method n → m.sameShape t n = true := by
  cases a <;> cases b <;> simp [sameSignature, kind, name]

theorem sameSignature_symm {a b : Member} (like : a.sameSignature t b = true) :
    b.sameSignature t a = true := by
  obtain ⟨kinds, names, shapes⟩ := sameSignature_iff.1 like
  refine sameSignature_iff.2 ⟨kinds.symm, names.symm, ?_⟩
  intro m n hm hn
  exact Method.sameShape_symm (shapes n m hn hm)

end Member

end Cil
