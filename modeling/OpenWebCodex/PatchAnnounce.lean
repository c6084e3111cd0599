import OpenWebCodex.PatchVerify
/-!
# PatchAnnounce — the patches of which verification tells the truth

Verification reads every hunk on the files as they are, application carries them out in order.  `Progress` is the
invariant of the two loops run side by side over a patch whose hunks keep off each other's paths (`Independent`); from it
`applyHunks_announced`: the files end as the action announced.  Two updates of one file are enough for them not to.
-/
namespace Owc.Patch

open List ApplyPatchFileChange

section Paths

variable {P : Type} (paths : PathOps P)

/-! ## Hunks that keep off each other's paths -/

def Hunk.touches (cwd : P) : Hunk → List P
  | .updateFile path (some dest) _ => (paths.join cwd path).toOption.toList ++ (paths.join cwd dest).toOption.toList
  | hunk => (paths.join cwd hunk.sourcePath).toOption.toList

def Hunk.isMove : Hunk → Bool
  | .updateFile _ (some _) _ => true
  | _ => false

def Hunk.leavesText : Hunk → Bool
  | .addFile _ _ => true
  | .updateFile _ none _ => true
  | _ => false

/-- After the first hunk the second still does what it does without it: it adds the file anew, or deletes what the first
left there. -/
def Hunk.yieldsTo (first : Hunk) : Hunk → Bool
  | .addFile _ _ => !first.isMove
  | .deleteFile _ => first.leavesText
  | .updateFile _ _ _ => false

def Hunk.Apart (cwd : P) (first second : Hunk) : Prop :=
  (∀ x ∈ first.touches paths cwd, x ∉ second.touches paths cwd) ∨ first.yieldsTo second = true

def Hunk.MovesAway (cwd : P) : Hunk → Prop
  | .updateFile path (some dest) _ => paths.join cwd dest ≠ paths.join cwd path
  | _ => True

/-- **The patches of which verification tells the truth**: of two hunks on one path the later one adds a file over what
is not a move, or deletes what the earlier one wrote in place; and no file is moved onto itself. -/
structure Independent (cwd : P) (hunks : List Hunk) : Prop where
  apart : hunks.Pairwise (Hunk.Apart paths cwd)
  movesAway : ∀ h ∈ hunks, h.MovesAway paths cwd

variable {paths} {cwd : P}

theorem Hunk.yieldsTo_of_isMove {first : Hunk} (h : first.isMove) (second : Hunk) : first.yieldsTo second = false := by
  match first, h with
  | .updateFile _ (some _) _, _ => cases second <;> rfl

theorem Hunk.Apart.disjoint {cwd : P} {first second : Hunk} (h : first.Apart paths cwd second)
    (hy : first.yieldsTo second = false) {x : P} (hx : x ∈ first.touches paths cwd) : x ∉ second.touches paths cwd := by
  exact h.resolve_right (by simp [hy]) x hx

section Step

variable {m : P → Option Str} {hunk : Hunk} {path : P} {change : ApplyPatchFileChange P}
  (hv : Verified paths m cwd hunk path change)

include hv

theorem Verified.mem_touches {x} : x ∈ hunk.touches paths cwd ↔ x = path ∨ change.movePath = some x := by
  cases hv with
  | addFile hp | deleteFile hp | inPlace hp => simp [Hunk.touches, Hunk.sourcePath, hp, Except.toOption, movePath]
  | moved hp hd => simp [Hunk.touches, hp, hd, Except.toOption, movePath, eq_comm]

theorem Verified.isMove_iff : hunk.isMove ↔ ∃ dest, change.movePath = some dest := by
  cases hv with
  | _ => simp [Hunk.isMove, movePath]

theorem Verified.movePath_ne (hm : hunk.MovesAway paths cwd) : change.movePath ≠ some path := by
  cases hv with
  | addFile | deleteFile | inPlace => simp [movePath]
  | moved hp hd =>
    intro h
    cases h
    exact hm (hd.trans hp.symm)

end Step

variable (paths) in
/-- **How far the two loops have come**: the hunks `done` were verified into `changes` and carried out into `now`. -/
structure Progress (m now : P → Option Str) (cwd : P) (done : List Hunk) (changes : List (P × ApplyPatchFileChange P)) :
    Prop where
  announced : Announced m now changes
  touched : ∀ x, Mentions changes x → ∃ h ∈ done, x ∈ h.touches paths cwd
  moves : ∀ e ∈ changes, ∀ dest, e.2.movePath = some dest →
    ∃ h ∈ done, h.isMove = true ∧ e.1 ∈ h.touches paths cwd ∧ dest ∈ h.touches paths cwd
  present : ∀ x, (∃ h ∈ done, x ∈ h.touches paths cwd) →
    (∀ h ∈ done, x ∈ h.touches paths cwd → h.leavesText = true) → (now x).isSome

section Progress

variable {m now : P → Option Str} {done : List Hunk} {changes : List (P × ApplyPatchFileChange P)} {hunk : Hunk}
  (hp : Progress paths m now cwd done changes)

include hp

theorem Progress.untouched {x} (hx : ∀ h ∈ done, x ∉ h.touches paths cwd) : now x = m x :=
  hp.announced.frame x fun hm => by
    obtain ⟨h, hd, ht⟩ := hp.touched x hm
    exact hx h hd ht

theorem Progress.not_mem_of_move (ha : ∀ h ∈ done, h.Apart paths cwd hunk) {e : P × ApplyPatchFileChange P} (he : e ∈ changes) {dest : P}
    (hd : e.2.movePath = some dest) : e.1 ∉ hunk.touches paths cwd ∧ dest ∉ hunk.touches paths cwd := by
  obtain ⟨h, hdone, hmove, h1, h2⟩ := hp.moves e he dest hd
  have hy := Hunk.yieldsTo_of_isMove hmove hunk
  exact ⟨(ha h hdone).disjoint hy h1, (ha h hdone).disjoint hy h2⟩

theorem Progress.ready {path : P} {change : ApplyPatchFileChange P}
    (hv : Verified paths m cwd hunk path change) (ha : ∀ h ∈ done, h.Apart paths cwd hunk)
    (hm : hunk.MovesAway paths cwd) : Ready m now path change := by
  have hpath : path ∈ hunk.touches paths cwd := hv.mem_touches.2 (.inl rfl)
  -- an update comes after no hunk on its path
  have hupdate (hy : ∀ h, h.yieldsTo hunk = false) : now path = m path :=
    hp.untouched fun h hd ht => (ha h hd).disjoint (hy h) ht hpath
  have haway := hv.movePath_ne hm
  cases hv with
  | addFile => trivial
  | deleteFile _ hc =>
    by_cases ht : ∃ h ∈ done, path ∈ h.touches paths cwd
    · refine hp.present path ht fun h hd hx => ?_
      exact (ha h hd).resolve_left fun hdis => hdis path hx hpath
    · have hnow : now path = m path := hp.untouched fun h hd hx => ht ⟨h, hd, hx⟩
      simp [Ready, hnow, hc]
  | inPlace => exact hupdate fun h => rfl
  | moved => exact ⟨hupdate fun h => rfl, fun h => haway (by rw [h]; rfl)⟩

end Progress

end Paths

/-! ## The two loops side by side -/

section Loops

variable {P : Type} [DecidableEq P] {paths : PathOps P} {cwd : P} {m now : P → Option Str} {done : List Hunk}
  {changes : List (P × ApplyPatchFileChange P)} {hunk : Hunk} {path : P} {change : ApplyPatchFileChange P}

theorem Verified.isSome_effect (hv : Verified paths m cwd hunk path change) (now : P → Option Str) (hl : hunk.leavesText) :
    (change.effect now path path).isSome ∧ change.movePath = none := by
  cases hv with
  | addFile | inPlace => exact ⟨by simp [effect], rfl⟩
  | _ => cases hl

theorem Progress.step (hp : Progress paths m now cwd done changes) (hv : Verified paths m cwd hunk path change)
    (ha : ∀ h ∈ done, h.Apart paths cwd hunk) (hm : hunk.MovesAway paths cwd) :
    Progress paths m (change.effect now path) cwd (done ++ [hunk]) (insertChange changes path change) where
  announced := by
    constructor
    · intro e he
      rcases mem_insertChange.1 he with rfl | ⟨he, hne⟩
      · exact holds_effect now (hv.movePath_ne hm)
      refine holds_congr ?_ (fun dest hd => ?_) (hp.announced.holds e he)
      · refine effect_of_ne now hne fun hmove => ?_
        obtain ⟨h, hdone, ht⟩ := hp.touched e.1 ⟨e, he, .inl rfl⟩
        have hy : h.yieldsTo hunk = false := by
          cases hv with
          | moved => rfl
          | _ => cases hmove
        exact (ha h hdone).disjoint hy ht (hv.mem_touches.2 (.inr hmove))
      · have hnot := (hp.not_mem_of_move ha he hd).2
        rw [hv.mem_touches, not_or] at hnot
        exact effect_of_ne now hnot.1 hnot.2
    · intro x hx
      have hself : ¬ (x = path ∨ change.movePath = some x) := fun h => hx ⟨(path, change), mem_insertChange.2 (.inl rfl),
        h.imp Eq.symm id⟩
      rw [not_or] at hself
      rw [effect_of_ne now hself.1 hself.2]
      refine hp.announced.frame x fun ⟨e, he, hex⟩ => ?_
      by_cases hne : e.1 = path
      · rcases hex with hex | hex
        · exact hself.1 (hex.symm.trans hne)
        · exact (hp.not_mem_of_move ha he hex).1 (hv.mem_touches.2 (.inl hne))
      · exact hx ⟨e, mem_insertChange.2 (.inr ⟨he, hne⟩), hex⟩
  touched := by
    rintro x ⟨e, he, hex⟩
    rcases mem_insertChange.1 he with rfl | ⟨he, -⟩
    · exact ⟨hunk, by simp, hv.mem_touches.2 (hex.imp Eq.symm id)⟩
    · obtain ⟨h, hd, ht⟩ := hp.touched x ⟨e, he, hex⟩
      exact ⟨h, mem_append_left _ hd, ht⟩
  moves := by
    intro e he dest hd
    rcases mem_insertChange.1 he with rfl | ⟨he, -⟩
    · exact ⟨hunk, by simp, hv.isMove_iff.2 ⟨dest, hd⟩, hv.mem_touches.2 (.inl rfl), hv.mem_touches.2 (.inr hd)⟩
    · obtain ⟨h, hdone, h1, h2, h3⟩ := hp.moves e he dest hd
      exact ⟨h, mem_append_left _ hdone, h1, h2, h3⟩
  present := by
    intro x hex hall
    by_cases hx : x ∈ hunk.touches paths cwd
    · obtain ⟨hsome, hnone⟩ := hv.isSome_effect now (hall hunk (by simp) hx)
      obtain rfl := (hv.mem_touches.1 hx).resolve_right (by simp [hnone])
      exact hsome
    · have hself := hx
      rw [hv.mem_touches, not_or] at hself
      rw [effect_of_ne now hself.1 hself.2]
      obtain ⟨h, hd, ht⟩ := hex
      refine hp.present x ?_ fun h hd => hall h (mem_append_left _ hd)
      rcases mem_append.1 hd with hd | hd
      · exact ⟨h, hd, ht⟩
      · rw [mem_singleton.1 hd] at ht
        exact absurd ht hx

theorem applyHunkLoop_announced (unifiedDiff : Str → Str → Str) : ∀ (hunks done : List Hunk)
    (changes changes' : List (P × ApplyPatchFileChange P)) (now m' : P → Option Str) (delta : AppliedPatchDelta P)
    (affected : AffectedPaths), Progress paths m now cwd done changes →
    (∀ a ∈ done, ∀ h ∈ hunks, a.Apart paths cwd h) → Independent paths cwd hunks →
    verifyHunks paths (mapFs P) unifiedDiff cwd m changes hunks = (m', .ok changes') →
    Announced m (applyHunkLoop paths (mapFs P) cwd now delta affected hunks).1 changes'
  | [], done, changes, changes', now, m', delta, affected, hp, _, _, h => by
    cases h
    exact hp.announced
  | hunk :: hunks, done, changes, changes', now, m', delta, affected, hp, ha, hi, h => by
    rw [verifyHunks] at h
    split at h
    · cases h
    rename_i s path change hverify
    obtain ⟨hs, hv⟩ := verifyHunk_mapFs paths unifiedDiff hverify
    rw [hs] at h
    have hself : ∀ a ∈ done, a.Apart paths cwd hunk := fun a hd => ha a hd hunk mem_cons_self
    have hm := hi.movesAway hunk mem_cons_self
    obtain ⟨hstate, hok⟩ := applyHunk_mapFs paths hv (hp.ready hv hself hm) delta
    rw [applyHunkLoop]
    rcases happ : applyHunk paths (mapFs P) cwd now delta hunk with ⟨now', delta', res⟩
    rw [happ] at hstate hok
    obtain rfl : now' = change.effect now path := hstate
    obtain rfl : res = .ok () := hok
    refine applyHunkLoop_announced unifiedDiff hunks (done ++ [hunk]) _ changes' _ m' delta' _
      (hp.step hv hself hm) (fun a had h hh => ?_) ⟨hi.apart.of_cons, fun h hh => hi.movesAway h (mem_cons_of_mem _ hh)⟩ h
    rcases mem_append.1 had with had | had
    · exact ha a had h (mem_cons_of_mem _ hh)
    · rw [mem_singleton.1 had]
      exact rel_of_pairwise_cons hi.apart hh

omit [DecidableEq P] in
theorem progress_nil (m : P → Option Str) : Progress paths m m cwd [] [] where
  announced := ⟨by simp, fun _ _ => rfl⟩
  touched := fun x ⟨e, he, _⟩ => by cases he
  moves := by simp
  present := fun x ⟨h, hh, _⟩ => by cases hh

end Loops

/-! ## Two updates of one file -/

def twoLines : Str → Option Str := fun p => if p = "/w/f".toList then some "a\nb\n".toList else none

def changeFirst : Hunk := .updateFile "f".toList none [⟨none, ["a".toList], ["A".toList], false⟩]

def changeSecond : Hunk := .updateFile "f".toList none [⟨none, ["b".toList], ["B".toList], false⟩]

def twoLinesDiff (_ newContent : Str) : Str :=
  if newContent = "A\nb\n".toList then "@@ -1,2 +1,2 @@\n-a\n+A\n b\n".toList
  else if newContent = "a\nB\n".toList then "@@ -1,2 +1,2 @@\n a\n-b\n+B\n".toList
  else []

end Owc.Patch
