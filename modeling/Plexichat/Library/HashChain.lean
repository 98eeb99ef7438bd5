import Mathlib.Data.List.Induction
import Mathlib.Data.List.Nodup

/-! Records that each have the hash of the record before, and a hash of that and of
their body. -/
namespace HashChain

universe u v

structure Record (H : Type u) (B : Type v) where
  prev : H
  body : B
  hash : H

variable {H : Type u} {B : Type v}

def Chained (digest : H → B → H) : H → List (Record H B) → Prop
  | _, [] => True
  | p, r :: rs => r.prev = p ∧ r.hash = digest p r.body ∧ Chained digest r.hash rs

def endHash (p : H) : List (Record H B) → H
  | [] => p
  | r :: rs => endHash r.hash rs

/-- The digests of what may be in a record tell it apart, and none is the first hash. -/
structure Separates (digest : H → B → H) (genesis : H) (allowed : H → B → Prop) : Prop where
  injective : ∀ p b q c, allowed p b → allowed q c → digest p b = digest q c → p = q ∧ b = c
  genesis : ∀ p b, digest p b ≠ genesis

variable {digest : H → B → H} {genesis p : H} {allowed : H → B → Prop}
  {rs rs' before rest : List (Record H B)} {r : Record H B}

theorem chained_append : Chained digest p (rs ++ rs') ↔
    Chained digest p rs ∧ Chained digest (endHash p rs) rs' := by
  induction rs generalizing p with
  | nil => exact (true_and _).to_iff.symm
  | cons r rs ih =>
    rw [List.cons_append, Chained, Chained, ih, and_assoc, and_assoc]
    rfl

theorem Chained.of_prefix (chained : Chained digest p rs) (first : rs' <+: rs) :
    Chained digest p rs' := by
  obtain ⟨more, rfl⟩ := first
  exact (chained_append.mp chained).1

theorem endHash_append : endHash p (rs ++ rs') = endHash (endHash p rs) rs' := by
  induction rs generalizing p with
  | nil => rfl
  | cons r rs ih => exact ih

theorem prevs_append_end (chained : Chained digest p rs) :
    rs.map Record.prev ++ [endHash p rs] = p :: rs.map Record.hash := by
  induction rs generalizing p with
  | nil => rfl
  | cons r rs ih =>
    obtain ⟨prev, -, more⟩ := chained
    rw [List.map_cons, List.cons_append, List.map_cons, prev]
    exact congrArg (p :: ·) (ih more)

theorem hash_eq (chained : Chained digest p rs) (member : r ∈ rs) :
    r.hash = digest r.prev r.body := by
  induction rs generalizing p with
  | nil => cases member
  | cons q rs ih =>
    obtain ⟨prev, hash, more⟩ := chained
    rcases List.mem_cons.mp member with rfl | member
    · rw [prev, hash]
    · exact ih more member

theorem nodup_hashes (separates : Separates digest genesis allowed)
    (chained : Chained digest genesis rs) (all : ∀ r ∈ rs, allowed r.prev r.body) :
    (genesis :: rs.map Record.hash).Nodup := by
  induction rs using List.reverseRecOn with
  | nil => exact List.nodup_singleton _
  | append_singleton rs r ih =>
    obtain ⟨front, prev, hash, -⟩ := chained_append.mp chained
    have known := ih front fun q member => all q (List.mem_append_left _ member)
    rw [List.map_append, ← List.cons_append]
    refine List.nodup_append.mpr ⟨known, List.nodup_singleton _, ?_⟩
    rintro h old h' own rfl
    rw [List.mem_singleton.mp own] at old
    rcases List.mem_cons.mp old with first | old
    · exact separates.genesis _ _ (hash.symm.trans first)
    · obtain ⟨q, member, same⟩ := List.mem_map.mp old
      have again : digest q.prev q.body = digest r.prev r.body := by
        rw [← hash_eq front member, same, hash, prev]
      have equal := (separates.injective _ _ _ _ (all q (List.mem_append_left _ member))
        (all r (List.mem_append_right _ List.mem_cons_self)) again).1
      rw [← prevs_append_end front] at known
      exact (List.nodup_append.mp known).2.2 q.prev (List.mem_map_of_mem member) (endHash genesis rs)
        List.mem_cons_self (equal.trans prev)

theorem prefix_of_rest (separates : Separates digest genesis allowed)
    (chained : Chained digest genesis (before ++ rest))
    (all : ∀ r ∈ before ++ rest, allowed r.prev r.body)
    (other : Chained digest (endHash genesis before) rs') (fine : ∀ r ∈ rs', allowed r.prev r.body)
    (known : ∀ r ∈ rs', r.hash ∈ (before ++ rest).map Record.hash) : rs' <+: rest := by
  induction rs' generalizing before rest with
  | nil => exact List.nil_prefix
  | cons r rs' ih =>
    obtain ⟨prev, hash, more⟩ := other
    obtain ⟨q, member, same⟩ := List.mem_map.mp (known r List.mem_cons_self)
    have again : digest q.prev q.body = digest r.prev r.body := by
      rw [← hash_eq chained member, same, hash, prev]
    obtain ⟨prevs, bodies⟩ := separates.injective _ _ _ _ (all q member)
      (fine r List.mem_cons_self) again
    have once := nodup_hashes separates chained all
    rw [← prevs_append_end chained] at once
    have equal : q = r := by
      cases q
      cases r
      cases prevs
      cases bodies
      cases same
      rfl
    subst equal
    cases rest with
    | nil =>
      rw [List.append_nil] at once member
      exact absurd prev ((List.nodup_append.mp once).2.2 q.prev (List.mem_map_of_mem member) _
        List.mem_cons_self)
    | cons next rest =>
      have following : next.prev = endHash genesis before := (chained_append.mp chained).2.1
      have here : q = next := List.inj_on_of_nodup_map (List.nodup_append.mp once).1 member
        (List.mem_append_right _ List.mem_cons_self) (prev.trans following.symm)
      subst here
      have split : before ++ q :: rest = (before ++ [q]) ++ rest := by simp
      rw [split] at chained all known
      refine List.cons_prefix_cons.mpr ⟨rfl, ih chained all ?_
        (fun r member => fine r (List.mem_cons_of_mem q member))
        fun r member => known r (List.mem_cons_of_mem q member)⟩
      rw [endHash_append]
      exact more

theorem prefix_of_hashes (separates : Separates digest genesis allowed)
    (chained : Chained digest genesis rs) (all : ∀ r ∈ rs, allowed r.prev r.body)
    (other : Chained digest genesis rs') (fine : ∀ r ∈ rs', allowed r.prev r.body)
    (known : ∀ r ∈ rs', r.hash ∈ rs.map Record.hash) : rs' <+: rs :=
  prefix_of_rest separates (show Chained digest genesis ([] ++ rs) from chained) all other fine known

end HashChain
