import OpenWebCodex.HistoryItem
/-!
# HistoryContext — recording items and dropping turns

The part of `ContextManager` that rebuilds a history: `record_items`, `replace` and `drop_last_n_user_turns`.  A rollback
cuts at an instruction and trims the contextual items above the cut, never below the first instruction.
-/
namespace Owc.History

open List Nat Option

section

variable (env : Env)

def recordItem (items : List ResponseItem) (item : ResponseItem) : List ResponseItem :=
  if isApiMessage item then items ++ [processItem env item] else items

def userMessagePositions : List ResponseItem → Nat → List Nat
  | [], _ => []
  | item :: items, idx =>
    if isUserTurnBoundary env item then idx :: userMessagePositions items (idx + 1)
    else userMessagePositions items (idx + 1)

def trimPreTurnContextUpdates (snapshot : List ResponseItem) (firstInstructionTurnIdx : Nat) : Nat → Nat
  | 0 => 0
  | cut + 1 =>
    if firstInstructionTurnIdx < cut + 1 && (snapshot[cut]?).any (isContextual env) then
      trimPreTurnContextUpdates snapshot firstInstructionTurnIdx cut
    else cut + 1

def dropLastNUserTurns (items : List ResponseItem) (numTurns : Nat) : List ResponseItem :=
  if numTurns = 0 then items
  else
    let positions := userMessagePositions env items 0
    match positions.head? with
    | none => items
    | some first =>
      let cut := if positions.length ≤ numTurns then first else (positions[positions.length - numTurns]?).getD first
      items.take (trimPreTurnContextUpdates env items first cut)

end

variable {env : Env}

/-! ## Positions -/

theorem userMessagePositions_cons (item : ResponseItem) (items : List ResponseItem) (idx : Nat) :
    userMessagePositions env (item :: items) idx = if isUserTurnBoundary env item
      then idx :: userMessagePositions env items (idx + 1) else userMessagePositions env items (idx + 1) := rfl

theorem userMessagePositions_append (items rest : List ResponseItem) (idx : Nat) :
    userMessagePositions env (items ++ rest) idx =
      userMessagePositions env items idx ++ userMessagePositions env rest (idx + items.length) := by
  induction items generalizing idx with
  | nil => rfl
  | cons item items ih =>
    have hidx : idx + 1 + items.length = idx + (items.length + 1) := by omega
    rw [cons_append, userMessagePositions_cons, userMessagePositions_cons, ih, length_cons, hidx]
    by_cases h : isUserTurnBoundary env item
    · rw [if_pos h, if_pos h, cons_append]
    · rw [if_neg h, if_neg h]

theorem length_userMessagePositions (items : List ResponseItem) (idx : Nat) :
    (userMessagePositions env items idx).length = items.countP (isUserTurnBoundary env) := by
  induction items generalizing idx with
  | nil => rfl
  | cons item items ih =>
    unfold userMessagePositions
    split
    · next h =>
      rw [length_cons, ih, countP_cons_of_pos h]
    · next h =>
      rw [ih, countP_cons_of_neg h]

theorem userMessagePositions_getElem? (h : (userMessagePositions env items idx)[k]? = some p) :
    idx ≤ p ∧ p - idx < items.length ∧ (items.take (p - idx)).countP (isUserTurnBoundary env) = k := by
  induction items generalizing idx k with
  | nil => simp [userMessagePositions] at h
  | cons item items ih =>
    unfold userMessagePositions at h
    split at h
    · next hb =>
      cases k with
      | zero =>
        simp only [getElem?_cons_zero, some.injEq] at h
        subst h
        simp
      | succ k =>
        obtain ⟨hle, hlt, hcount⟩ := ih (by simpa using h)
        have hp : p - idx = (p - (idx + 1)) + 1 := by omega
        refine ⟨by omega, by rw [length_cons]; omega, ?_⟩
        rw [hp, take_succ_cons, countP_cons_of_pos hb, hcount]
    · next hb =>
      obtain ⟨hle, hlt, hcount⟩ := ih h
      have hp : p - idx = (p - (idx + 1)) + 1 := by omega
      refine ⟨by omega, by rw [length_cons]; omega, ?_⟩
      rw [hp, take_succ_cons, countP_cons_of_neg hb, hcount]

/-! ## Trimming -/

variable {item : ResponseItem}

theorem lt_trim (first : Nat) (hk : k < cut)
    (hitem : snapshot[k]? = some item) (hctx : isContextual env item = false) :
    k < trimPreTurnContextUpdates env snapshot first cut := by
  induction cut with
  | zero => omega
  | succ cut ih =>
    unfold trimPreTurnContextUpdates
    by_cases hkc : k = cut
    · rw [if_neg]
      · omega
      · subst hkc
        simp [hitem, hctx]
    · split
      · exact ih (by omega)
      · omega

theorem trim_self (snapshot : List ResponseItem) (first : Nat) : trimPreTurnContextUpdates env snapshot first first = first := by
  cases first with
  | zero => rfl
  | succ =>
    unfold trimPreTurnContextUpdates
    rw [if_neg (by simp)]

variable (env) in
theorem take_trim {snapshot : List ResponseItem} (first : Nat) {cut : Nat} (hcut : cut ≤ snapshot.length) :
    ∃ rest, snapshot.take cut = snapshot.take (trimPreTurnContextUpdates env snapshot first cut) ++ rest ∧
      ∀ item ∈ rest, isContextual env item := by
  induction cut with
  | zero => exact ⟨[], by simp [trimPreTurnContextUpdates], by simp⟩
  | succ cut ih =>
    unfold trimPreTurnContextUpdates
    split
    · rename_i h
      obtain ⟨rest, hrest, hctx⟩ := ih (by omega)
      simp only [Bool.and_eq_true, decide_eq_true_eq, Option.any_eq_true] at h
      obtain ⟨_, item, hitem, hc⟩ := h
      refine ⟨rest ++ [item], ?_, fun i hi => ?_⟩
      · rw [take_add_one, hrest, hitem, Option.toList_some, append_assoc]
      · rcases mem_append.1 hi with hi | hi
        · exact hctx i hi
        · rw [mem_singleton.1 hi]
          exact hc
    · exact ⟨[], by simp, by simp⟩

/-! ## Up to context -/

/-- The same history but for contextual items at its end. -/
def SameUpToContext (env : Env) (a b : List ResponseItem) : Prop :=
  a.rdropWhile (isContextual env) = b.rdropWhile (isContextual env)

theorem rdropWhile_append_context (items : List ResponseItem) (h : ∀ item ∈ rest, isContextual env item) :
    (items ++ rest).rdropWhile (isContextual env) = items.rdropWhile (isContextual env) := by
  induction rest using reverseRecOn with
  | nil => rw [append_nil]
  | append_singleton rest item ih =>
    rw [← append_assoc, rdropWhile_concat_pos _ _ _ (h item (by simp))]
    exact ih fun i hi => h i (mem_append_left _ hi)

theorem sameUpToContext_append (h : SameUpToContext env a b)
    (hrest : ∀ item ∈ rest, isContextual env item) : SameUpToContext env (a ++ rest) b := by
  unfold SameUpToContext
  rw [rdropWhile_append_context a hrest]
  exact h

theorem boundary_of_not_context (h : isContextual env item) : isUserTurnBoundary env item = false := by
  cases hb : isUserTurnBoundary env item with
  | false => rfl
  | true =>
    rw [isContextual_of_boundary env hb] at h
    cases h

theorem countP_context {rest : List ResponseItem} (h : ∀ item ∈ rest, isContextual env item) :
    rest.countP (isUserTurnBoundary env) = 0 := by
  rw [countP_eq_zero]
  intro item hi
  rw [boundary_of_not_context (h item hi)]
  exact Bool.false_ne_true

theorem SameUpToContext.countP {a b : List ResponseItem} (h : SameUpToContext env a b) :
    a.countP (isUserTurnBoundary env) = b.countP (isUserTurnBoundary env) := by
  have hstrip : ∀ l : List ResponseItem,
      l.countP (isUserTurnBoundary env) = (l.rdropWhile (isContextual env)).countP (isUserTurnBoundary env) := by
    intro l
    induction l using reverseRecOn with
    | nil => rfl
    | append_singleton l item ih =>
      by_cases hc : isContextual env item
      · have hone : [item].countP (isUserTurnBoundary env) = 0 := countP_context (by simpa using hc)
        rw [rdropWhile_concat_pos _ _ _ hc, countP_append, hone, add_zero, ih]
      · rw [rdropWhile_concat_neg _ _ _ hc]
  rw [hstrip a, hstrip b, h]

/-! ## Dropping turns -/

/-- **A history above a base**: it continues the base, up to context, with `depth` instructions, the first of them first. -/
def Above (env : Env) (base : List ResponseItem) (depth : Nat) (history : List ResponseItem) : Prop :=
  ∃ below above, history = below ++ above ∧ SameUpToContext env below base ∧
    above.countP (isUserTurnBoundary env) = depth ∧
    (above = [] ∨ ∃ item rest, above = item :: rest ∧ isUserTurnBoundary env item = true)

theorem above_self (base : List ResponseItem) : Above env base 0 base :=
  ⟨base, [], by simp, rfl, rfl, .inl rfl⟩

variable {base history : List ResponseItem}

theorem Above.sameUpToContext (h : Above env base 0 history) : SameUpToContext env history base := by
  obtain ⟨below, above, rfl, hbelow, hcount, hnil | ⟨item, rest, rfl, hb⟩⟩ := h
  · rw [hnil, append_nil]
    exact hbelow
  · rw [countP_cons_of_pos hb] at hcount
    omega

variable {depth : Nat}

section

variable {base history items : List ResponseItem} (h : Above env base depth history)
include h

theorem Above.append (hdepth : 0 < depth) (hitems : items.countP (isUserTurnBoundary env) = 0) :
    Above env base depth (history ++ items) := by
  obtain ⟨below, above, rfl, hbelow, hcount, hstart⟩ := h
  refine ⟨below, above ++ items, append_assoc _ _ _, hbelow, by rw [countP_append, hitems, hcount, add_zero], ?_⟩
  rcases hstart with rfl | ⟨item, rest, rfl, hb⟩
  · rw [countP_nil] at hcount
    omega
  · exact .inr ⟨item, rest ++ items, rfl, hb⟩

theorem Above.context (hitems : ∀ item ∈ items, isContextual env item) : Above env base depth (history ++ items) := by
  by_cases hdepth : 0 < depth
  · exact h.append hdepth (countP_context hitems)
  · have hzero : depth = 0 := by omega
    subst hzero
    exact ⟨history ++ items, [], by simp, sameUpToContext_append h.sameUpToContext hitems, rfl, .inl rfl⟩

end

theorem Above.turn {base history before rest : List ResponseItem}
    (h : Above env base depth history) (hbefore : ∀ i ∈ before, isContextual env i)
    (hitem : isUserTurnBoundary env item) (hrest : rest.countP (isUserTurnBoundary env) = 0) :
    Above env base (depth + 1) (history ++ before ++ item :: rest) := by
  obtain ⟨below, _, rfl, hbelow, hcount, hstart⟩ := h
  have hturn : (item :: rest).countP (isUserTurnBoundary env) = 1 := by rw [countP_cons_of_pos hitem, hrest]
  rcases hstart with rfl | ⟨first, others, rfl, hb⟩
  · refine ⟨below ++ before, item :: rest, by simp, sameUpToContext_append hbelow hbefore, ?_, .inr ⟨item, rest, rfl, hitem⟩⟩
    rw [hturn, ← hcount]
    rfl
  · refine ⟨below, first :: others ++ before ++ item :: rest, by simp, hbelow, ?_,
      .inr ⟨first, others ++ before ++ item :: rest, by simp, hb⟩⟩
    rw [countP_append, countP_append, hturn, countP_context hbefore, hcount, add_zero]

theorem dropLastNUserTurns_of_lt (hn : n ≠ 0) (h : n < items.countP (isUserTurnBoundary env)) :
    ∃ first cut, dropLastNUserTurns env items n = items.take (trimPreTurnContextUpdates env items first cut) ∧
      (userMessagePositions env items 0)[items.countP (isUserTurnBoundary env) - n]? = some cut := by
  have hlen : (userMessagePositions env items 0).length = _ := length_userMessagePositions items 0
  have hget : items.countP (isUserTurnBoundary env) - n < (userMessagePositions env items 0).length := by omega
  obtain ⟨first, hfirst⟩ : ∃ first, (userMessagePositions env items 0).head? = some first := by
    cases hp : userMessagePositions env items 0 with
    | nil =>
      rw [hp, length_nil] at hget
      omega
    | cons p => exact ⟨p, rfl⟩
  refine ⟨first, (userMessagePositions env items 0)[items.countP (isUserTurnBoundary env) - n], ?_, getElem?_eq_getElem hget⟩
  unfold dropLastNUserTurns
  rw [if_neg hn]
  dsimp only
  rw [hfirst]
  dsimp only
  rw [if_neg (by omega), hlen, getElem?_eq_getElem hget, getD_some]

theorem dropLastNUserTurns_of_le (hn : n ≠ 0)
    (hitem : isUserTurnBoundary env item) (hbelow : below.countP (isUserTurnBoundary env) = 0)
    (h : (item :: above).countP (isUserTurnBoundary env) ≤ n) :
    dropLastNUserTurns env (below ++ item :: above) n = below := by
  have hpos : userMessagePositions env (below ++ item :: above) 0 =
      below.length :: userMessagePositions env above (below.length + 1) := by
    rw [userMessagePositions_append, userMessagePositions_cons, if_pos hitem, zero_add]
    have : userMessagePositions env below 0 = [] := by rw [← length_eq_zero_iff, length_userMessagePositions, hbelow]
    rw [this, nil_append]
  have hlen : (below.length :: userMessagePositions env above (below.length + 1)).length ≤ n := by
    rw [← hpos, length_userMessagePositions, countP_append, hbelow, zero_add]
    exact h
  unfold dropLastNUserTurns
  rw [if_neg hn]
  dsimp only
  rw [hpos, head?_cons]
  dsimp only
  rw [if_pos hlen, trim_self, take_left]

/-- **A rollback lowers the depth**, where the base holds no instruction or the depth covers it. -/
theorem Above.drop (h : Above env base depth history) (n : Nat)
    (hcover : n ≤ depth ∨ base.countP (isUserTurnBoundary env) = 0) :
    Above env base (depth - n) (dropLastNUserTurns env history n) := by
  by_cases hn : n = 0
  · subst hn
    exact h
  obtain ⟨below, above, rfl, hbelow, hcount, hstart⟩ := h
  have hbase : below.countP (isUserTurnBoundary env) = base.countP (isUserTurnBoundary env) := hbelow.countP
  rcases hstart with rfl | ⟨item, rest, rfl, hb⟩
  · -- nothing is above the base, which then holds no instruction
    rw [countP_nil] at hcount
    have hzero : below.countP (isUserTurnBoundary env) = 0 := by omega
    have hpos : userMessagePositions env (below ++ []) 0 = [] := by
      rw [← length_eq_zero_iff, length_userMessagePositions, append_nil, hzero]
    have hdrop : dropLastNUserTurns env (below ++ []) n = below ++ [] := by
      unfold dropLastNUserTurns
      rw [if_neg hn, hpos]
      rfl
    rw [hdrop]
    exact ⟨below, [], rfl, hbelow, by rw [countP_nil]; omega, .inl rfl⟩
  have htotal : (below ++ item :: rest).countP (isUserTurnBoundary env) =
      below.countP (isUserTurnBoundary env) + depth := by rw [countP_append, hcount]
  by_cases hall : depth ≤ n ∧ below.countP (isUserTurnBoundary env) = 0
  · rw [dropLastNUserTurns_of_le hn hb hall.2 (by rw [hcount]; exact hall.1)]
    exact ⟨below, [], by simp, hbelow, by rw [countP_nil]; omega, .inl rfl⟩
  have hle : n ≤ depth := by omega
  have hlt : n < (below ++ item :: rest).countP (isUserTurnBoundary env) := by omega
  obtain ⟨first, cut, hdrop, hcut⟩ := dropLastNUserTurns_of_lt hn hlt
  obtain ⟨_, hlen, hbefore⟩ := userMessagePositions_getElem? hcut
  rw [Nat.sub_zero] at hlen hbefore
  rw [htotal] at hcut hbefore
  obtain ⟨context, htake, hcontext⟩ := take_trim env first (le_of_lt hlen)
  rw [hdrop]
  by_cases hnd : n = depth
  · -- the cut is at the base, and only context of the base goes with it
    have hcutBelow : cut = below.length := by
      rw [userMessagePositions_append, userMessagePositions_cons, if_pos hb, Nat.zero_add, hnd, Nat.add_sub_cancel,
        getElem?_append_right (Nat.le_of_eq (length_userMessagePositions below 0)), length_userMessagePositions,
        Nat.sub_self] at hcut
      simpa using hcut.symm
    subst hcutBelow
    rw [take_left] at htake
    refine ⟨_, [], (append_nil _).symm, ?_, by rw [countP_nil]; omega, .inl rfl⟩
    unfold SameUpToContext
    rw [← rdropWhile_append_context _ hcontext, ← htake]
    exact hbelow
  · -- the cut is above the base, and trimming stops at its first instruction
    have hcutBelow : below.length < cut := by
      by_contra hge
      rw [take_append_of_le_length (by omega)] at hbefore
      have := (take_sublist cut below).countP_le (p := isUserTurnBoundary env)
      omega
    have hat : (below ++ item :: rest)[below.length]? = some item := by simp
    have hmid := lt_trim first hcutBelow hat (isContextual_of_boundary env hb)
    obtain ⟨k, hk⟩ := Nat.exists_eq_add_of_lt hmid
    have hkeep : (below ++ item :: rest).take (trimPreTurnContextUpdates env (below ++ item :: rest) first cut) =
        below ++ item :: rest.take k := by
      rw [hk, add_assoc, take_length_add_append, take_succ_cons]
    rw [htake, countP_append, countP_context hcontext, hkeep, countP_append, add_zero] at hbefore
    refine ⟨below, item :: rest.take k, hkeep, hbelow, by omega, .inr ⟨item, _, rfl, hb⟩⟩

variable (env) in
theorem exists_above (history : List ResponseItem) : ∃ base, base.countP (isUserTurnBoundary env) = 0 ∧
      Above env base (history.countP (isUserTurnBoundary env)) history := by
  induction history using reverseRecOn with
  | nil => exact ⟨[], rfl, above_self []⟩
  | append_singleton history item ih =>
    obtain ⟨base, hbase, habove⟩ := ih
    rw [countP_append]
    by_cases hb : isUserTurnBoundary env item
    · refine ⟨base, hbase, ?_⟩
      have := habove.turn (forall_mem_nil _) hb countP_nil
      rw [append_nil] at this
      rwa [countP_singleton, if_pos hb]
    have hone : [item].countP (isUserTurnBoundary env) = 0 := by simp [hb]
    by_cases hdepth : 0 < history.countP (isUserTurnBoundary env)
    · refine ⟨base, hbase, ?_⟩
      rw [hone]
      exact habove.append hdepth hone
    · refine ⟨history ++ [item], by rw [countP_append, hone]; omega, ?_⟩
      have hzero : history.countP (isUserTurnBoundary env) + [item].countP (isUserTurnBoundary env) = 0 := by omega
      rw [hzero]
      exact above_self _

theorem Above.countP (h : Above env base depth history) :
    history.countP (isUserTurnBoundary env) = base.countP (isUserTurnBoundary env) + depth := by
  obtain ⟨_, _, rfl, hbelow, hcount, _⟩ := h
  rw [countP_append, hbelow.countP, hcount]

variable (env) in
theorem dropLastNUserTurns_prefix (history : List ResponseItem) (n : Nat) : dropLastNUserTurns env history n <+: history := by
  unfold dropLastNUserTurns
  split
  · exact prefix_rfl
  dsimp only
  split
  · exact prefix_rfl
  · exact take_prefix _ _

theorem countP_dropLastNUserTurns (history : List ResponseItem) (n : Nat) :
    (dropLastNUserTurns env history n).countP (isUserTurnBoundary env) = history.countP (isUserTurnBoundary env) - n := by
  obtain ⟨_, hbase, habove⟩ := exists_above env history
  rw [(habove.drop n (.inr hbase)).countP, hbase, zero_add]

theorem filter_dropLastNUserTurns (history : List ResponseItem) (n : Nat) :
    (dropLastNUserTurns env history n).filter (isUserTurnBoundary env) =
      (history.filter (isUserTurnBoundary env)).take ((history.filter (isUserTurnBoundary env)).length - n) := by
  have hprefix := ( dropLastNUserTurns_prefix env history n).filter (isUserTurnBoundary env)
  rw [prefix_iff_eq_take.1 hprefix, ← countP_eq_length_filter, countP_dropLastNUserTurns, ← countP_eq_length_filter]

end Owc.History
