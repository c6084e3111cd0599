import Mathlib
/-!
# Specific — rules on a tree of paths, of which the most specific one decides

A rule covers the paths at and below its own.  Of the rules that cover a path the longest decides, and of rules at one path
the strongest.  What is decided at a path is decided at the deepest ruled path above it.
-/
namespace Owc.Specific

open List

structure Rule (Name Access : Type) where
  path : List Name
  access : Access

section Rules

variable {Name Access : Type}

structure Deepest (rules : List (Rule Name Access)) (q p : List Name) : Prop where
  above : q <+: p
  ruled : ∃ r ∈ rules, r.path = q
  deepest : ∀ r ∈ rules, r.path <+: p → r.path <+: q

variable {rules : List (Rule Name Access)} {p q : List Name}

theorem Deepest.eq {q' : List Name} (h : Deepest rules q p) (h' : Deepest rules q' p) : q = q' := by
  obtain ⟨r, hr, rfl⟩ := h.ruled
  obtain ⟨r', hr', rfl⟩ := h'.ruled
  have h₁ := h'.deepest r hr h.above
  have h₂ := h.deepest r' hr' h'.above
  exact h₁.eq_of_length (Nat.le_antisymm h₁.length_le h₂.length_le)

variable {r : Rule Name Access}

theorem deepest_self (hr : r ∈ rules) : Deepest rules r.path r.path :=
  ⟨prefix_refl _, ⟨r, hr, rfl⟩, fun _ _ h => h⟩

theorem Deepest.mid (h : Deepest rules q p) {m : List Name} (hqm : q <+: m) (hmp : m <+: p) : Deepest rules q m :=
  ⟨hqm, h.ruled, fun r hr hrm => h.deepest r hr (hrm.trans hmp)⟩

section Covering

variable [DecidableEq Name]

def covering (rules : List (Rule Name Access)) (p : List Name) : List (Rule Name Access) :=
  rules.filter (fun r => r.path.isPrefixOf p)

theorem mem_covering : r ∈ covering rules p ↔ r ∈ rules ∧ r.path <+: p := by
  unfold covering
  rw [mem_filter, isPrefixOf_iff_prefix]

end Covering

variable [LinearOrder Access]

/-- A rule yields to one that is longer, or as long and as strong. -/
def Rule.yields (r s : Rule Name Access) : Bool :=
  decide (r.path.length < s.path.length ∨ r.path.length = s.path.length ∧ r.access ≤ s.access)

/-- The last of the rules that all yield to. -/
def strongest : List (Rule Name Access) → Option (Rule Name Access)
  | [] => none
  | r :: rules => some (rules.foldl (fun best s => if best.yields s then s else best) r)

theorem yields_iff {r s : Rule Name Access} :
    r.yields s ↔ r.path.length < s.path.length ∨ r.path.length = s.path.length ∧ r.access ≤ s.access :=
  decide_eq_true_iff

theorem yields_refl (r : Rule Name Access) : r.yields r := yields_iff.2 (.inr ⟨rfl, le_refl _⟩)

theorem yields_trans {r s t : Rule Name Access} (hrs : r.yields s) (hst : s.yields t) : r.yields t := by
  rw [yields_iff] at *
  rcases hrs with h | ⟨h, ha⟩ <;> rcases hst with h' | ⟨h', ha'⟩
  · exact .inl (by omega)
  · exact .inl (by omega)
  · exact .inl (by omega)
  · exact .inr ⟨by omega, le_trans ha ha'⟩

theorem yields_total {r s : Rule Name Access} (h : ¬ r.yields s) : s.yields r := by
  rw [yields_iff] at *
  rcases Nat.lt_trichotomy r.path.length s.path.length with hlt | heq | hgt
  · exact absurd (.inl hlt) h
  · rcases le_total r.access s.access with hle | hle
    · exact absurd (.inr ⟨heq, hle⟩) h
    · exact .inr ⟨heq.symm, hle⟩
  · exact .inl hgt

theorem strongest_spec (h : strongest rules = some r) : r ∈ rules ∧ ∀ s ∈ rules, s.yields r := by
  have hfold : ∀ (rules : List (Rule Name Access)) (first : Rule Name Access),
      rules.foldl (fun best s => if best.yields s then s else best) first ∈ first :: rules ∧
      ∀ s ∈ first :: rules, s.yields (rules.foldl (fun best s => if best.yields s then s else best) first) := by
    intro rules
    induction rules with
    | nil =>
      intro first
      refine ⟨mem_cons_self, fun s hs => ?_⟩
      rw [mem_singleton.1 hs]
      exact yields_refl first
    | cons s rules ih =>
      intro first
      rw [foldl_cons]
      split
      · next hyields =>
        obtain ⟨hmem, hall⟩ := ih s
        refine ⟨mem_cons_of_mem _ hmem, fun t ht => ?_⟩
        rcases mem_cons.1 ht with rfl | ht
        · exact yields_trans hyields (hall s mem_cons_self)
        · exact hall t ht
      · next hyields =>
        obtain ⟨hmem, hall⟩ := ih first
        refine ⟨?_, fun t ht => ?_⟩
        · rcases mem_cons.1 hmem with h | h
          · exact mem_cons.2 (.inl h)
          · exact mem_cons_of_mem _ (mem_cons_of_mem _ h)
        · rcases mem_cons.1 ht with rfl | ht
          · exact hall t mem_cons_self
          · rcases mem_cons.1 ht with rfl | ht
            · exact yields_trans (yields_total hyields) (hall first mem_cons_self)
            · exact hall t (mem_cons_of_mem _ ht)
  cases rules with
  | nil => cases h
  | cons first rules =>
    cases h
    exact hfold rules first

variable [DecidableEq Name]

def decided (rules : List (Rule Name Access)) (p : List Name) : Option Access :=
  (strongest (covering rules p)).map (·.access)

theorem decided_cases (rules : List (Rule Name Access)) (p : List Name) :
    (decided rules p = none ∧ ∀ r ∈ rules, ¬ r.path <+: p) ∨
    ∃ r ∈ rules, decided rules p = some r.access ∧ Deepest rules r.path p ∧ ∀ s ∈ rules, s.path = r.path → s.access ≤ r.access := by
  unfold decided
  cases hs : strongest (covering rules p) with
  | none =>
    refine .inl ⟨rfl, fun r hr hrp => ?_⟩
    have hmem := mem_covering.2 ⟨hr, hrp⟩
    cases hc : covering rules p with
    | nil => exact not_mem_nil (hc ▸ hmem)
    | cons => rw [hc] at hs; cases hs
  | some r =>
    obtain ⟨hmem, hall⟩ := strongest_spec hs
    obtain ⟨hr, hrp⟩ := mem_covering.1 hmem
    refine .inr ⟨r, hr, rfl, ⟨hrp, ⟨r, hr, rfl⟩, fun s hmem hsp => ?_⟩, fun s hmem hpath => ?_⟩
    · have hyields := yields_iff.1 (hall s (mem_covering.2 ⟨hmem, hsp⟩))
      exact prefix_of_prefix_length_le hsp hrp (by omega)
    · have hyields := yields_iff.1 (hall s (mem_covering.2 ⟨hmem, hpath ▸ hrp⟩))
      rcases hyields with h | h
      · rw [hpath] at h
        omega
      · exact h.2

theorem exists_deepest (hr : r ∈ rules) (hrp : r.path <+: p) : ∃ q, Deepest rules q p ∧ r.path <+: q := by
  rcases decided_cases rules p with ⟨_, hnone⟩ | ⟨s, _, _, hdeepest, _⟩
  · exact absurd hrp (hnone r hr)
  · exact ⟨s.path, hdeepest, hdeepest.deepest r hr hrp⟩

theorem Deepest.decided_eq (h : Deepest rules q p) : decided rules p = decided rules q := by
  unfold decided covering
  rw [filter_congr fun r hr => ?_]
  rw [Bool.eq_iff_iff, isPrefixOf_iff_prefix, isPrefixOf_iff_prefix]
  exact ⟨fun hrp => h.deepest r hr hrp, fun hrq => hrq.trans h.above⟩

theorem decided_of_ruled (hr : r ∈ rules) :
    ∃ s ∈ rules, s.path = r.path ∧ decided rules r.path = some s.access ∧ ∀ t ∈ rules, t.path = r.path → t.access ≤ s.access := by
  rcases decided_cases rules r.path with ⟨_, hnone⟩ | ⟨s, hs, hdecided, hdeepest, hmax⟩
  · exact absurd (prefix_refl _) (hnone r hr)
  · have hpath := hdeepest.eq (deepest_self hr)
    exact ⟨s, hs, hpath, hdecided, fun t ht htr => hmax t ht (htr.trans hpath.symm)⟩

theorem exists_deepest_of_decided {a : Access} (h : decided rules p = some a) : ∃ q, Deepest rules q p ∧ decided rules q = some a ∧
    ∃ r ∈ rules, r.path = q ∧ r.access = a := by
  rcases decided_cases rules p with ⟨hnone, _⟩ | ⟨r, hr, hdecided, hdeepest, _⟩
  · cases hnone.symm.trans h
  · exact ⟨r.path, hdeepest, hdeepest.decided_eq ▸ h, r, hr, rfl, Option.some.inj (hdecided.symm.trans h)⟩

theorem Deepest.exists_rule {a : Access} (h : Deepest rules q p) (hq : decided rules q = some a) : ∃ r ∈ rules, r.path = q ∧ r.access = a := by
  obtain ⟨s, hs, rfl⟩ := h.ruled
  obtain ⟨r, hr, hpath, hdecided, _⟩ := decided_of_ruled hs
  exact ⟨r, hr, hpath, Option.some.inj (hdecided.symm.trans hq)⟩

theorem decided_perm {rules' : List (Rule Name Access)} (h : rules.Perm rules') (p : List Name) :
    decided rules p = decided rules' p := by
  rcases decided_cases rules p with ⟨hnone, hall⟩ | ⟨r, hr, hdecided, hdeepest, hmax⟩ <;>
    rcases decided_cases rules' p with ⟨hnone', hall'⟩ | ⟨r', hr', hdecided', hdeepest', hmax'⟩
  · rw [hnone, hnone']
  · exact absurd hdeepest'.above (hall r' (h.mem_iff.2 hr'))
  · exact absurd hdeepest.above (hall' r (h.mem_iff.1 hr))
  · have hdeep : Deepest rules r'.path p :=
      ⟨hdeepest'.above, ⟨r', h.mem_iff.2 hr', rfl⟩, fun s hs => hdeepest'.deepest s (h.mem_iff.1 hs)⟩
    have hpath := hdeepest.eq hdeep
    have hle := hmax r' (h.mem_iff.2 hr') hpath.symm
    have hge := hmax' r (h.mem_iff.1 hr) hpath
    rw [hdecided, hdecided', le_antisymm hge hle]

end Rules

end Owc.Specific
