import OpenWebCodex.PatchPrint
/-!
# PatchRoundTrip — a printed patch reads back as the hunks it was printed from

The text is fed in pieces cut anywhere; what the machine makes of it depends on the lines only (`pushDelta_unlines`).
Over the lines, `Closed st hunks` is the invariant between hunks: the machine has read exactly `hunks`, and the last of
them may end here.  One lemma for each header, one for each kind of body line, and the runs over a chunk, a hunk and a
patch by induction over the text's own structure.
-/
namespace Owc.Patch

open List Str UpdateFileChunk

/-! ## Pieces and lines -/

def feed : StreamingPatchParser → List Str → Except ParseError StreamingPatchParser
  | p, [] => .ok p
  | p, delta :: deltas =>
    match pushDelta p delta with
    | (_, .error e) => .error e
    | (p, .ok _) => feed p deltas

def parsePieces (pieces : List Str) : Except ParseError (List Hunk) :=
  match feed .default pieces with
  | .error e => .error e
  | .ok p => (finish p).2

def processLines : StreamingParserState → Nat → List Str → Except ParseError StreamingParserState
  | st, _, [] => .ok st
  | st, lineNumber, line :: lines =>
    match processLine st (lineNumber + 1) line with
    | .error e => .error e
    | .ok st => processLines st (lineNumber + 1) lines

theorem pushDelta_append : ∀ a b p, pushDelta p (a ++ b) = match pushDelta p a with
    | (p, .error e) => (p, .error e)
    | (p, .ok _) => pushDelta p b
  | [], b, p => rfl
  | ch :: a, b, p => by
    simp only [cons_append, pushDelta]
    split
    · cases processLine p.state (p.lineNumber + 1) p.lineBuffer.dropCr with
      | error => rfl
      | ok => exact pushDelta_append a b _
    · exact pushDelta_append a b _

theorem feed_flatten : ∀ pieces p p' hs, pushDelta p pieces.flatten = (p', .ok hs) → feed p pieces = .ok p'
  | [], p, p', hs, h => by
    cases h
    rfl
  | d :: ds, p, p', hs, h => by
    rw [flatten_cons, pushDelta_append] at h
    rw [feed]
    split at h
    · cases h
    · rename_i p₁ hs₁ hd
      exact feed_flatten ds p₁ p' hs h

theorem feed_eq_flatten : ∀ pieces p, feed p pieces = feed p [pieces.flatten]
  | [], _ => rfl
  | d :: ds, p => by
    simp only [flatten_cons, feed, pushDelta_append]
    obtain ⟨p₁, _ | _⟩ := pushDelta p d
    · rfl
    · exact feed_eq_flatten ds p₁

theorem pushDelta_open (st : StreamingParserState) (n : Nat) : ∀ l b, '\n' ∉ l →
    pushDelta ⟨b, st, n⟩ l = (⟨b ++ l, st, n⟩, .ok st.hunks)
  | [], b, _ => by simp [pushDelta]
  | c :: l, b, h => by
    have hc : c ≠ '\n' := fun he => h (by simp [he])
    have ih := pushDelta_open st n l (b ++ [c]) fun hm => h (by simp [hm])
    rw [pushDelta, if_neg hc, ih, append_assoc, singleton_append]

theorem pushDelta_line (hl : PrintableLine l) (h : processLine st (n + 1) l = .ok st') (rest : Str) :
    pushDelta ⟨[], st, n⟩ (l ++ '\n' :: rest) = pushDelta ⟨[], st', n + 1⟩ rest := by
  rw [pushDelta_append, pushDelta_open st n l [] hl.one_line]
  simp only [pushDelta, if_true, nil_append, dropCr_eq_self hl.no_cr, h]

theorem processLines_cons_ok {st st' n l lines} (h : processLines st n (l :: lines) = .ok st') :
    ∃ st₁, processLine st (n + 1) l = .ok st₁ ∧ processLines st₁ (n + 1) lines = .ok st' := by
  rw [processLines] at h
  split at h
  · cases h
  · rename_i st₁ hp
    exact ⟨st₁, hp, h⟩

theorem processLines_cons (h : processLine st (n + 1) l = .ok st₁)
    (lines : List Str) : processLines st n (l :: lines) = processLines st₁ (n + 1) lines := by
  rw [processLines, h]

theorem pushDelta_unlines (rest : Str) : ∀ lines, (∀ l ∈ lines, PrintableLine l) →
    ∀ st st' n, processLines st n lines = .ok st' →
    pushDelta ⟨[], st, n⟩ (unlines lines ++ rest) = pushDelta ⟨[], st', n + lines.length⟩ rest
  | [], _, st, st', n, h => by
    cases h
    rfl
  | l :: lines, hl, st, st', n, h => by
    have hcons : unlines (l :: lines) ++ rest = l ++ '\n' :: (unlines lines ++ rest) := by simp [unlines]
    obtain ⟨st₁, hp, h⟩ := processLines_cons_ok h
    rw [hcons, pushDelta_line (hl l mem_cons_self) hp,
      pushDelta_unlines rest lines (fun x hx => hl x (mem_cons_of_mem _ hx)) st₁ st' (n + 1) h,
      length_cons, Nat.add_assoc, Nat.add_comm 1]

theorem processLines_append (h : processLines st n a = .ok st₁) :
    processLines st n (a ++ b) = processLines st₁ (n + a.length) b := by
  induction a generalizing st n with
  | nil =>
    cases h
    rfl
  | cons l a ih =>
    obtain ⟨_, hp, h⟩ := processLines_cons_ok h
    rw [cons_append, processLines_cons hp, ih h, length_cons, Nat.add_assoc, Nat.add_comm 1]

/-! ## Lines that are no header -/

/-- Every marker a header line can start with starts with `*`. -/
theorem handle_none_of_head? (st : StreamingParserState) (n : Nat) (h : t.head? ≠ some '*') :
    handleHunkHeadersAndEndPatch st n t = .ok none := by
  have hs : ∀ p, t.stripPrefix ('*' :: p) = none := fun p => stripPrefix_of_head?_ne p h
  have hend : t ≠ endPatchMarker := ne_of_head?_ne _ h
  have henv : (if st.mode = .startedPatch then t.stripPrefix environmentIdMarker else none) = none := by
    split
    · exact hs _
    · rfl
  have h1 : t.stripPrefix addFileMarker = none := hs _
  have h2 : t.stripPrefix deleteFileMarker = none := hs _
  have h3 : t.stripPrefix updateFileMarker = none := hs _
  unfold handleHunkHeadersAndEndPatch
  rw [henv, h1, h2, h3]
  simp only [if_neg hend]

def inUpdate (hs : List Hunk) (path : Str) (movePath : Option Str) (env : Option Str) (k : Nat)
    (chunks : List UpdateFileChunk) : StreamingParserState :=
  ⟨.updateFile k, hs ++ [.updateFile path movePath chunks], env⟩

theorem processLine_updateFile
    (hh : handleHunkHeadersAndEndPatch (inUpdate hs path movePath env k chunks) n line.trimEnd = .ok none)
    (hu : processUpdateLine n movePath chunks line = .ok (movePath', chunks')) :
    processLine (inUpdate hs path movePath env k chunks) n line = .ok (inUpdate hs path movePath' env k chunks') := by
  simp only [inUpdate] at hh ⊢
  unfold processLine
  simp only [hh]
  simp [processBodyLine, hu]

theorem processLine_addFile (hs : List Hunk) (path contents : Str) (env : Option Str) (n : Nat) (l : Str) :
    processLine ⟨.addFile, hs ++ [.addFile path contents], env⟩ n ('+' :: l) =
      .ok ⟨.addFile, hs ++ [.addFile path (contents ++ l ++ ['\n'])], env⟩ := by
  have hh : handleHunkHeadersAndEndPatch ⟨.addFile, hs ++ [.addFile path contents], env⟩ n (trim ('+' :: l)) = .ok none := by
    refine handle_none_of_head? _ n ?_
    rw [trim_cons (by decide)]
    simp
  unfold processLine
  simp only [hh]
  simp [processBodyLine]

theorem processLines_addFile (hs : List Hunk) (path : Str) (env : Option Str) : ∀ lines contents n, processLines ⟨.addFile, hs ++ [.addFile path contents], env⟩ n (lines.map ('+' :: ·)) =
      .ok ⟨.addFile, hs ++ [.addFile path (contents ++ unlines lines)], env⟩
  | [], contents, n => by simp [processLines, unlines]
  | l :: lines, contents, n => by
    rw [map_cons, processLines_cons (processLine_addFile hs path contents env (n + 1) l), processLines_addFile]
    simp [unlines]

/-! ## The lines of an update hunk -/

inductive ChangeLine : Str → (UpdateFileChunk → UpdateFileChunk) → Prop
  | context (l : Str) : ChangeLine (' ' :: l) (·.context l)
  | blank : ChangeLine [] (·.context [])
  | add (l : Str) : ChangeLine ('+' :: l) (·.add l)
  | remove (l : Str) : ChangeLine ('-' :: l) (·.remove l)

variable {f : UpdateFileChunk → UpdateFileChunk}

theorem ChangeLine.head?_ne (h : ChangeLine line f) : line.head? ≠ some '*' ∧ line.head? ≠ some '@' := by
  cases h <;> simp

variable {chunks : List UpdateFileChunk}

theorem processUpdateLine_change (h : ChangeLine line f) (n : Nat)
    (movePath : Option Str) (heof : chunks.getLast?.any (·.isEndOfFile) = false) :
    processUpdateLine n movePath chunks line = .ok (movePath, growLast chunks f) := by
  have hstar := head?_trimEnd_ne h.head?_ne.1
  have hat := head?_trimEnd_ne h.head?_ne.2
  have hmove : (if chunks.isEmpty && movePath.isNone then line.trimEnd.stripPrefix moveToMarker else none) = none := by
    split
    · exact stripPrefix_of_head?_ne _ hstar
    · rfl
  have hempty : line.trimEnd ≠ emptyChangeContextMarker := ne_of_head?_ne _ hat
  have hctx : line.trimEnd.stripPrefix changeContextMarker = none := stripPrefix_of_head?_ne _ hat
  have hctx' : line.trimEnd.startsWith changeContextMarker = false := startsWith_of_head?_ne _ hat
  have heofm : line.trimEnd ≠ eofMarker := ne_of_head?_ne _ hstar
  have hisctx : isContextLine line.trimEnd = false := by
    simp only [isContextLine, hctx', Bool.or_false, beq_eq_false_iff_ne]
    exact hempty
  unfold processUpdateLine
  simp only [heof, hisctx, Bool.false_and, Bool.false_eq_true, if_false, hmove, hempty, hctx, heofm]
  cases h <;> rfl

theorem isContextLine_contextLine (context : Option Str) : isContextLine (contextLine context) = true := by
  cases context with
  | none => rfl
  | some => simp [isContextLine, contextLine, startsWith_append]

theorem trimEnd_contextLine {context} (h : ∀ c ∈ context, PrintableContext c) :
    (contextLine context).trimEnd = contextLine context := by
  cases context with
  | none => decide
  | some c => exact trimEnd_append _ (h c rfl).ne_nil (h c rfl).trimmed

theorem processUpdateLine_context {context} (h : ∀ c ∈ context, PrintableContext c) (n : Nat)
    (movePath : Option Str) (hbare : chunks.getLast?.any (·.isBare) = false) :
    processUpdateLine n movePath chunks (contextLine context) = .ok (movePath, chunks ++ [emptyChunk context]) := by
  have hne : (contextLine context).isEmpty = false := by cases context <;> rfl
  have hmove : (if chunks.isEmpty && movePath.isNone then (contextLine context).stripPrefix moveToMarker else none) =
      none := by
    have : (contextLine context).head? ≠ some '*' := by
      cases context <;> exact show some '@' ≠ some '*' by decide
    split
    · exact stripPrefix_of_head?_ne _ this
    · rfl
  unfold processUpdateLine
  simp only [trimEnd_contextLine h, hne, isContextLine_contextLine, hbare, Bool.and_false, Bool.not_true,
    Bool.false_eq_true, if_false, hmove]
  cases context with
  | none => rfl
  | some c =>
    have hc : changeContextMarker ++ c ≠ emptyChangeContextMarker := append_ne_of_not_startsWith (by decide) c
    simp only [contextLine, if_neg hc, stripPrefix_append]

theorem processUpdateLine_eof (n : Nat) (movePath : Option Str) (cs : List UpdateFileChunk)
    (heof : c.isEndOfFile = false) (hbare : c.isBare = false) :
    processUpdateLine n movePath (cs ++ [c]) eofMarker = .ok (movePath, cs ++ [{ c with isEndOfFile := true }]) := by
  have htrim : eofMarker.trimEnd = eofMarker := by decide
  have hctx : isContextLine eofMarker = false := by decide
  have hm : eofMarker ≠ emptyChangeContextMarker := by decide
  have hs : eofMarker.stripPrefix changeContextMarker = none := by decide
  unfold processUpdateLine
  simp [htrim, hctx, hm, hs, heof, hbare, growLast]

theorem processUpdateLine_move (n : Nat) (hp : PrintablePath path) :
    processUpdateLine n none [] (moveToMarker ++ path) = .ok (some path, []) := by
  have htrim : (moveToMarker ++ path).trimEnd = moveToMarker ++ path :=
    trimEnd_append _ hp.ne_nil (trimEnd_eq_of_trim_eq hp.trimmed)
  unfold processUpdateLine
  simp [htrim, stripPrefix_append]

/-! ## Runs over a chunk and over the chunks of a hunk -/

variable {text : List Str} {body : List Str}

theorem handle_none_of_marker (hm : st.mode = .updateFile m) (n : Nat)
    (ha : ∀ p ∈ [endPatchMarker, addFileMarker, deleteFileMarker, updateFileMarker],
      a.startsWith p = false ∧ p.startsWith a = false) (s : Str) :
    handleHunkHeadersAndEndPatch st n (a ++ s) = .ok none := by
  have hs : ∀ p ∈ [endPatchMarker, addFileMarker, deleteFileMarker, updateFileMarker], (a ++ s).stripPrefix p = none :=
    fun p hp => stripPrefix_append_of_ne (ha p hp).1 (ha p hp).2 s
  have hend : a ++ s ≠ endPatchMarker := append_ne_of_not_startsWith (ha endPatchMarker (by simp)).2 s
  have h1 := hs addFileMarker (by simp)
  have h2 := hs deleteFileMarker (by simp)
  have h3 := hs updateFileMarker (by simp)
  unfold handleHunkHeadersAndEndPatch
  simp [hm, hend, h1, h2, h3]

theorem processLine_move {moveTo : Str} (n : Nat) (hp : PrintablePath moveTo) :
    processLine (inUpdate hs path none env k []) n (moveToMarker ++ moveTo) =
      .ok (inUpdate hs path (some moveTo) env k []) := by
  refine processLine_updateFile ?_ (processUpdateLine_move n hp)
  rw [trimEnd_append _ hp.ne_nil (trimEnd_eq_of_trim_eq hp.trimmed)]
  exact handle_none_of_marker rfl n (by decide) moveTo

section UpdateRun

variable {hs : List Hunk} {path : Str} {movePath env : Option Str} {k : Nat} {S : List UpdateFileChunk → StreamingParserState}
  (hS : S = inUpdate hs path movePath env k)

include hS

theorem processLine_change (h : ChangeLine line f) (n : Nat) (heof : chunks.getLast?.any (·.isEndOfFile) = false) :
    processLine (S chunks) n line = .ok (S (growLast chunks f)) := by
  subst hS
  exact processLine_updateFile (handle_none_of_head? _ n (head?_trimEnd_ne h.head?_ne.1))
    (processUpdateLine_change h n movePath heof)

theorem processLine_context {context} (h : ∀ c ∈ context, PrintableContext c) (n : Nat)
    (hbare : chunks.getLast?.any (·.isBare) = false) :
    processLine (S chunks) n (contextLine context) = .ok (S (chunks ++ [emptyChunk context])) := by
  subst hS
  refine processLine_updateFile (handle_none_of_head? _ n ?_) (processUpdateLine_context h n movePath hbare)
  rw [trimEnd_contextLine h]
  cases context <;> exact show some '@' ≠ some '*' by decide

theorem processLine_eof (n : Nat) (cs : List UpdateFileChunk) (heof : c.isEndOfFile = false)
    (hbare : c.isBare = false) : processLine (S (cs ++ [c])) n eofMarker = .ok (S (cs ++ [{ c with isEndOfFile := true }])) := by
  subst hS
  refine processLine_updateFile ?_ (processUpdateLine_eof n movePath cs heof hbare)
  have htrim : eofMarker.trimEnd = eofMarker ++ [] := by decide
  rw [htrim]
  exact handle_none_of_marker rfl n (by decide) []

theorem processLines_changes (h : ChangeLines old new text) (cs : List UpdateFileChunk) :
    ∀ c n, c.isEndOfFile = false → processLines (S (cs ++ [c])) n text =
        .ok (S (cs ++ [{ c with oldLines := c.oldLines ++ old, newLines := c.newLines ++ new }])) := by
  have step {line : Str} {f : UpdateFileChunk → UpdateFileChunk} (hl : ChangeLine line f) {c : UpdateFileChunk}
      (hc : c.isEndOfFile = false) (n : Nat) (text : List Str) :
      processLines (S (cs ++ [c])) n (line :: text) = processLines (S (cs ++ [f c])) (n + 1) text := by
    rw [processLines_cons (processLine_change hS hl (n + 1) (by simpa using hc))]
    simp [growLast]
  induction h with
  | nil => intro c n hc; simp [processLines]
  | context l h ih =>
    intro c n hc
    rw [step (.context l) hc, ih (c.context l) _ hc]
    simp [context]
  | blank h ih =>
    intro c n hc
    rw [step .blank hc, ih (c.context []) _ hc]
    simp [context]
  | add l h ih =>
    intro c n hc
    rw [step (.add l) hc, ih (c.add l) _ hc]
    simp [add]
  | remove l h ih =>
    intro c n hc
    rw [step (.remove l) hc, ih (c.remove l) _ hc]
    simp [remove]

theorem processLines_chunkBody (hb : ChunkBody chunk body)
    (hbare : chunk.isBare = false) (cs : List UpdateFileChunk) (n : Nat) :
    processLines (S (cs ++ [emptyChunk chunk.changeContext])) n body = .ok (S (cs ++ [chunk])) := by
  obtain ⟨_, hch, rfl⟩ := hb
  rw [processLines_append (processLines_changes hS hch cs (emptyChunk chunk.changeContext) n rfl)]
  obtain ⟨context, old, new, eof⟩ := chunk
  cases eof with
  | false => rfl
  | true => exact processLines_cons (processLine_eof hS _ cs (c := ⟨context, old, new, false⟩) rfl hbare) []

theorem processLines_chunks (h : ChunkLines chunks text) :
    ∀ cs n, cs.getLast?.any (·.isBare) = false → (∀ c ∈ chunks, PrintableChunk c) →
      processLines (S cs) n text = .ok (S (cs ++ chunks)) := by
  induction h with
  | nil => intro cs n _ _; simp [processLines]
  | @cons chunk chunks body text hb h ih =>
    intro cs n hbare hp
    have hc : PrintableChunk chunk := hp chunk mem_cons_self
    rw [cons_append, processLines_cons (processLine_context hS hc.context (n + 1) hbare),
      processLines_append (processLines_chunkBody hS hb hc.not_bare cs (n + 1)), ih (cs ++ [chunk]) _ (by simpa using hc.not_bare)
        (fun c hm => hp c (mem_cons_of_mem _ hm))]
    simp

/-- Without `@@` the first change line opens the chunk the marker would have opened. -/
theorem processLines_short (h : ChangeLines old new changes) (hne : old ≠ [] ∨ new ≠ [])
    (n : Nat) (rest : List Str) :
    processLines (S []) n (changes ++ rest) = processLines (S [emptyChunk none]) n (changes ++ rest) := by
  have step {line : Str} {f : UpdateFileChunk → UpdateFileChunk} (hl : ChangeLine line f) (text : List Str) :
      processLines (S []) n (line :: text) = processLines (S [emptyChunk none]) n (line :: text) := by
    rw [processLines_cons (processLine_change hS hl (n + 1) rfl), processLines_cons (processLine_change hS hl (n + 1) rfl)]
    rfl
  cases h with
  | nil => simp at hne
  | context l => exact step (.context l) _
  | blank => exact step .blank _
  | add l => exact step (.add l) _
  | remove l => exact step (.remove l) _

theorem processLines_updateLines (h : UpdateLines chunks text) (hp : ∀ c ∈ chunks, PrintableChunk c) (n : Nat) :
    processLines (S []) n text = .ok (S chunks) := by
  cases h with
  | full h => exact processLines_chunks hS h [] n rfl hp
  | @short chunk chunks body text hn hb h =>
    have hc : PrintableChunk chunk := hp chunk mem_cons_self
    have hne : chunk.oldLines ≠ [] ∨ chunk.newLines ≠ [] := by
      simpa only [isBare, Bool.and_eq_false_iff, isEmpty_eq_false_iff] using hc.not_bare
    have hshort : processLines (S []) n (body ++ text) =
        processLines (S ([] ++ [emptyChunk chunk.changeContext])) n (body ++ text) := by
      obtain ⟨_, hch, rfl⟩ := hb
      rw [hn, append_assoc]
      exact processLines_short hS hch hne n _
    rw [hshort, processLines_append (processLines_chunkBody hS hb hc.not_bare [] n)]
    exact processLines_chunks hS h [chunk] (n + body.length) (by simpa using hc.not_bare)
      (fun c hm => hp c (mem_cons_of_mem _ hm))

end UpdateRun

/-! ## Headers -/

/-- **Between hunks**: the machine has read `hunks`, and a header or the end of the patch may follow. -/
structure Closed (st : StreamingParserState) (hunks : List Hunk) (env : Option Str) : Prop where
  hunks_eq : st.hunks = hunks
  env_eq : st.environmentId = env
  started : st.mode ≠ .notStarted
  open_ : st.mode ≠ .endedPatch
  complete : ∀ n line, ensureUpdateHunkIsNotEmpty st n line = .ok ()

theorem noEnvironment (mode : StreamingParserMode) (h1 : a.startsWith environmentIdMarker = false)
    (h2 : environmentIdMarker.startsWith a = false) (s : Str) :
    (if mode = .startedPatch then (a ++ s).stripPrefix environmentIdMarker else none) = none := by
  split
  · exact stripPrefix_append_of_ne h1 h2 s
  · rfl

theorem trim_header (hp : PrintablePath p) (a : Str) : trim ('*' :: a ++ p) = '*' :: a ++ p :=
  trim_append a (by decide) hp.ne_nil (trimEnd_eq_of_trim_eq hp.trimmed)

section Headers

variable {st : StreamingParserState} {hunks : List Hunk} {env : Option Str} (hc : Closed st hunks env)

include hc

/-- A trimmed line is a header in every mode or in none. -/
theorem Closed.processLine_of_handle (ht : line.trim = line)
    (h : handleHunkHeadersAndEndPatch st n line = .ok (some st')) : processLine st n line = .ok st' := by
  have hte := trimEnd_eq_of_trim_eq ht
  unfold processLine
  cases hm : st.mode with
  | notStarted => exact absurd hm hc.started
  | endedPatch => exact absurd hm hc.open_
  | startedPatch | addFile | deleteFile => simp only [ht, h]
  | updateFile => simp only [hte, h]

theorem Closed.startHunk (n : Nat) (line : Str) (next : StreamingParserState) : Patch.startHunk st n line next = .ok (some next) := by
  unfold Patch.startHunk
  rw [hc.complete n line]

section

variable {path : Str} (hp : PrintablePath path) (n : Nat)
include hp

theorem Closed.processLine_addFile :
    processLine st n (addFileMarker ++ path) = .ok ⟨.addFile, hunks ++ [.addFile path []], env⟩ := by
  have hend : addFileMarker ++ path ≠ endPatchMarker := append_ne_of_not_startsWith (by decide) path
  refine hc.processLine_of_handle (trim_header hp _) ?_
  unfold handleHunkHeadersAndEndPatch
  rw [noEnvironment st.mode (by decide) (by decide) path]
  simp only [if_neg hend, stripPrefix_append, hc.startHunk]
  rw [hc.hunks_eq, hc.env_eq]

theorem Closed.processLine_deleteFile :
    processLine st n (deleteFileMarker ++ path) = .ok ⟨.deleteFile, hunks ++ [.deleteFile path], env⟩ := by
  have hend : deleteFileMarker ++ path ≠ endPatchMarker := append_ne_of_not_startsWith (by decide) path
  have hadd := stripPrefix_append_of_ne (a := deleteFileMarker) (p := addFileMarker) (by decide) (by decide) path
  refine hc.processLine_of_handle (trim_header hp _) ?_
  unfold handleHunkHeadersAndEndPatch
  rw [noEnvironment st.mode (by decide) (by decide) path]
  simp only [if_neg hend, hadd, stripPrefix_append, hc.startHunk]
  rw [hc.hunks_eq, hc.env_eq]

theorem Closed.processLine_updateFile :
    processLine st n (updateFileMarker ++ path) = .ok (inUpdate hunks path none env n []) := by
  have hend : updateFileMarker ++ path ≠ endPatchMarker := append_ne_of_not_startsWith (by decide) path
  have hadd := stripPrefix_append_of_ne (a := updateFileMarker) (p := addFileMarker) (by decide) (by decide) path
  have hdel := stripPrefix_append_of_ne (a := updateFileMarker) (p := deleteFileMarker) (by decide) (by decide) path
  refine hc.processLine_of_handle (trim_header hp _) ?_
  unfold handleHunkHeadersAndEndPatch
  rw [noEnvironment st.mode (by decide) (by decide) path]
  simp only [if_neg hend, hadd, hdel, stripPrefix_append, hc.startHunk]
  rw [hc.hunks_eq, hc.env_eq]
  rfl

end

theorem Closed.processLine_endPatch (n : Nat) : processLine st n endPatchMarker = .ok ⟨.endedPatch, hunks, env⟩ := by
  refine hc.processLine_of_handle (by decide) ?_
  have henv := noEnvironment st.mode (a := endPatchMarker) (by decide) (by decide) []
  rw [append_nil] at henv
  unfold handleHunkHeadersAndEndPatch
  rw [henv]
  simp only [if_true, hc.startHunk]
  rw [hc.hunks_eq, hc.env_eq]

end Headers

/-! ## Runs over the hunks -/

theorem closed_of_mode (hmode : st.mode ∈ [.startedPatch, .addFile, .deleteFile])
    (hlast : ∀ path movePath chunks, st.hunks.getLast? ≠ some (.updateFile path movePath chunks)) :
    Closed st st.hunks st.environmentId where
  hunks_eq := rfl
  env_eq := rfl
  started := fun h => by simp [h] at hmode
  open_ := fun h => by simp [h] at hmode
  complete := fun n line => by
    unfold ensureUpdateHunkIsNotEmpty
    split
    · rename_i h
      exact absurd h (hlast _ _ _)
    · rfl

theorem closed_inUpdate (hs : List Hunk) (path : Str) (movePath env : Option Str) (k : Nat)
    (hne : chunks ≠ []) (hp : ∀ c ∈ chunks, PrintableChunk c) :
    Closed (inUpdate hs path movePath env k chunks) (hs ++ [.updateFile path movePath chunks]) env where
  hunks_eq := rfl
  env_eq := rfl
  started := by simp [inUpdate]
  open_ := by simp [inUpdate]
  complete := fun n line => by
    have hbare : chunks.getLast?.any (·.isBare) = false := by
      rw [getLast?_eq_some_getLast hne]
      exact (hp _ (getLast_mem hne)).not_bare
    cases chunks with
    | nil => exact absurd rfl hne
    | cons => simp only [ensureUpdateHunkIsNotEmpty, inUpdate, getLast?_concat, hbare, Bool.false_eq_true, if_false]

theorem closed_start (env : Option Str) : Closed ⟨.startedPatch, [], env⟩ [] env :=
  closed_of_mode (by simp) (by simp)

theorem processLines_moveTo (hs : List Hunk) (path : Str) (env : Option Str) (k : Nat)
    (hm : ∀ p ∈ movePath, PrintablePath p) (n : Nat) :
    processLines (inUpdate hs path none env k []) n (movePath.toList.map (moveToMarker ++ ·)) =
      .ok (inUpdate hs path movePath env k []) := by
  cases movePath with
  | none => rfl
  | some p => exact processLines_cons (processLine_move (n + 1) (hm p rfl)) []

theorem processLines_hunk (h : HunkLines hunk text) (hp : Printable hunk)
 (hc : Closed st hunks env) (n : Nat) :
    ∃ st', processLines st n text = .ok st' ∧ Closed st' (hunks ++ [hunk]) env := by
  cases h with
  | @addFile path lines hl =>
    have hpath : PrintablePath path := by
      generalize hu : unlines lines = contents at hp
      cases hp with
      | addFile hp => exact hp
    refine ⟨⟨.addFile, hunks ++ [.addFile path (unlines lines)], env⟩, ?_, closed_of_mode (by simp) (by simp)⟩
    rw [processLines_cons (hc.processLine_addFile hpath (n + 1)), processLines_addFile]
    rfl
  | deleteFile =>
    cases hp with
    | deleteFile hp =>
      exact ⟨_, processLines_cons (hc.processLine_deleteFile hp (n + 1)) [], closed_of_mode (by simp) (by simp)⟩
  | @updateFile path movePath chunks text hu =>
    cases hp with
    | updateFile hp hm hne hch =>
      refine ⟨_, ?_, closed_inUpdate hunks path movePath env (n + 1) hne hch⟩
      rw [cons_append, processLines_cons (hc.processLine_updateFile hp (n + 1)),
        processLines_append (processLines_moveTo hunks path env (n + 1) hm (n + 1))]
      exact processLines_updateLines rfl hu hch _

theorem processLines_hunks (h : HunksLines hunks text) :
    ∀ before st n, (∀ h ∈ hunks, Printable h) → Closed st before env →
      ∃ st', processLines st n text = .ok st' ∧ Closed st' (before ++ hunks) env := by
  induction h with
  | nil => exact fun before st n _ hc => ⟨st, rfl, by simpa using hc⟩
  | @cons hunk hunks text rest h hs ih =>
    intro before st n hp hc
    obtain ⟨st₁, hr₁, hc₁⟩ := processLines_hunk h (hp hunk mem_cons_self) hc n
    obtain ⟨st₂, hr₂, hc₂⟩ := ih (before ++ [hunk]) st₁ (n + text.length) (fun x hx => hp x (mem_cons_of_mem _ hx)) hc₁
    refine ⟨st₂, ?_, by simpa using hc₂⟩
    rw [processLines_append hr₁, hr₂]

theorem processLine_environment {id} (hid : PrintablePath id) (n : Nat) :
    processLine ⟨.startedPatch, [], none⟩ n (environmentIdMarker ++ ' ' :: id) = .ok ⟨.startedPatch, [], some id⟩ := by
  have hend : trimEnd (' ' :: id) = ' ' :: id :=
    trimEnd_append [' '] hid.ne_nil (trimEnd_eq_of_trim_eq hid.trimmed)
  have htrim : trim (environmentIdMarker ++ ' ' :: id) = environmentIdMarker ++ ' ' :: id :=
    trim_append "** Environment ID:".toList (by decide) (by simp) hend
  have hval : trim (' ' :: id) = id := (show trim (' ' :: id) = trim id from rfl).trans hid.trimmed
  refine (closed_start none).processLine_of_handle htrim ?_
  unfold handleHunkHeadersAndEndPatch
  simp only [if_true, stripPrefix_append, hval]
  simp [hid.ne_nil]

theorem processLines_start (he : ∀ id ∈ env, PrintablePath id) :
    processLines ⟨.notStarted, [], none⟩ 0 (beginPatchMarker :: environmentLines env) = .ok ⟨.startedPatch, [], env⟩ := by
  have hbegin : processLine ⟨.notStarted, [], none⟩ 1 beginPatchMarker = .ok ⟨.startedPatch, [], none⟩ := by decide
  rw [processLines_cons hbegin]
  cases env with
  | none => rfl
  | some id => exact processLines_cons (processLine_environment (he id rfl) 2) []

theorem processLines_patch (h : HunksLines hunks body)
    (he : ∀ id ∈ env, PrintablePath id) (hp : ∀ h ∈ hunks, Printable h) :
    ∃ st, processLines ⟨.notStarted, [], none⟩ 0 (patchLines env body) = .ok st ∧ Closed st hunks env := by
  obtain ⟨st, hr, hc⟩ := processLines_hunks h [] ⟨.startedPatch, [], env⟩
    (0 + (beginPatchMarker :: environmentLines env).length) hp (closed_start env)
  refine ⟨st, ?_, by simpa using hc⟩
  rw [patchLines, processLines_append (processLines_start he), hr]

/-! ## Every line of the text is a line -/

theorem printableLine_cons (h1 : c ≠ '\n') (h2 : c ≠ '\r') (h : PrintableLine l) : PrintableLine (c :: l) where
  one_line := by simpa using ⟨Ne.symm h1, h.one_line⟩
  no_cr := by
    cases l with
    | nil => simpa using h2
    | cons => simpa using h.no_cr

theorem printableLine_append {a s : Str} (ha : '\n' ∉ a) (hne : s ≠ []) (hs : '\n' ∉ s) (ht : s.trimEnd = s) :
    PrintableLine (a ++ s) where
  one_line := by simpa using ⟨ha, hs⟩
  no_cr := fun h => by
    rw [getLast?_append_of_ne_nil a hne, getLast?_eq_some_getLast hne, Option.some.injEq] at h
    exact rdropWhile_eq_self_iff.1 ht hne (by rw [h]; decide)

theorem PrintablePath.line (hp : PrintablePath path) (ha : '\n' ∉ a) : PrintableLine (a ++ path) :=
  printableLine_append ha hp.ne_nil hp.one_line (trimEnd_eq_of_trim_eq hp.trimmed)

theorem ChangeLines.printable (h : ChangeLines old new text) :
    (∀ l ∈ old, PrintableLine l) → (∀ l ∈ new, PrintableLine l) → ∀ l ∈ text, PrintableLine l := by
  induction h with
  | nil => simp
  | context | blank | add | remove => simp_all [printableLine_cons]

theorem printableLine_contextLine {context} (h : ∀ c ∈ context, PrintableContext c) :
    PrintableLine (contextLine context) := by
  cases context with
  | none => exact ⟨by decide, by decide⟩
  | some c => exact printableLine_append (by decide) (h c rfl).ne_nil (h c rfl).one_line (h c rfl).trimmed

theorem ChunkBody.printable (hb : ChunkBody chunk body)
    (hp : PrintableChunk chunk) : ∀ l ∈ body, PrintableLine l := by
  obtain ⟨changes, hch, rfl⟩ := hb
  refine forall_mem_append.2 ⟨hch.printable hp.old hp.new, ?_⟩
  unfold eofLines
  split
  · exact forall_mem_singleton.2 ⟨by decide, by decide⟩
  · simp

theorem ChunkLines.printable (h : ChunkLines chunks text) : (∀ c ∈ chunks, PrintableChunk c) → ∀ l ∈ text, PrintableLine l := by
  induction h with
  | nil => simp
  | cons hb h ih =>
    intro hp
    rw [forall_mem_cons] at hp
    rw [cons_append, forall_mem_cons, forall_mem_append]
    exact ⟨printableLine_contextLine hp.1.context, hb.printable hp.1, ih hp.2⟩

theorem UpdateLines.printable (h : UpdateLines chunks text)
    (hp : ∀ c ∈ chunks, PrintableChunk c) : ∀ l ∈ text, PrintableLine l := by
  cases h with
  | full h => exact h.printable hp
  | short hn hb h =>
    rw [forall_mem_cons] at hp
    exact forall_mem_append.2 ⟨hb.printable hp.1, h.printable hp.2⟩

theorem unlines_injective (ha : ∀ l ∈ a, '\n' ∉ l) (hb : ∀ l ∈ b, '\n' ∉ l) (h : unlines a = unlines b) : a = b := by
  have := (split_unlines a ha).symm.trans ((congrArg _ h).trans (split_unlines b hb))
  exact append_cancel_right this

theorem HunkLines.printable (h : HunkLines hunk text) (hp : Printable hunk) : ∀ l ∈ text, PrintableLine l := by
  cases h with
  | @addFile path lines hl =>
    generalize hu : unlines lines = contents at hp
    cases hp with
    | @addFile _ lines' hpath hl' =>
      rw [unlines_injective hl (fun l hm => (hl' l hm).one_line) hu, forall_mem_cons, forall_mem_map]
      exact ⟨hpath.line (by decide), fun l hm => printableLine_cons (by decide) (by decide) (hl' l hm)⟩
  | deleteFile =>
    cases hp with
    | deleteFile hp =>
      rw [forall_mem_singleton]
      exact hp.line (by decide)
  | updateFile path movePath hu =>
    cases hp with
    | updateFile hp hm hne hch =>
      rw [cons_append, forall_mem_cons, forall_mem_append, forall_mem_map]
      exact ⟨hp.line (by decide), fun p hmem => (hm p (Option.mem_toList.1 hmem)).line (by decide), hu.printable hch⟩

theorem HunksLines.printable (h : HunksLines hunks text) :
    (∀ h ∈ hunks, Printable h) → ∀ l ∈ text, PrintableLine l := by
  induction h with
  | nil => simp
  | cons h hs ih =>
    intro hp
    rw [forall_mem_cons] at hp
    exact forall_mem_append.2 ⟨h.printable hp.1, ih hp.2⟩

theorem patchLines_printable (he : ∀ id ∈ env, PrintablePath id)
    (hb : ∀ l ∈ body, PrintableLine l) : ∀ l ∈ patchLines env body, PrintableLine l := by
  rw [patchLines, cons_append, forall_mem_cons, forall_mem_append, environmentLines, forall_mem_map]
  refine ⟨⟨by decide, by decide⟩, fun id hid => ?_, hb⟩
  have hid := he id (Option.mem_toList.1 hid)
  have := hid.line (a := environmentIdMarker ++ [' ']) (by decide)
  rwa [append_assoc] at this

/-! ## The round trip -/

theorem finish_endPatch (hc : Closed st hunks env)
    (n : Nat) : finish ⟨endPatchMarker, st, n⟩ = (⟨[], ⟨.endedPatch, hunks, env⟩, n + 1⟩, .ok hunks) := by
  have htrim : endPatchMarker.trim = endPatchMarker := by decide
  have hne : endPatchMarker.isEmpty = false := by decide
  unfold finish finishLine
  simp [hne, htrim, hc.complete, hc.hunks_eq, hc.env_eq]

theorem pushDelta_patch {hunks : List Hunk} (h : HunksLines hunks body) {env : Option Str}
    (he : ∀ id ∈ env, PrintablePath id) (hp : ∀ h ∈ hunks, Printable h) {tail : Str} (ht : tail ∈ [[], ['\n']]) :
    ∃ p, pushDelta .default (unlines (patchLines env body) ++ endPatchMarker ++ tail) = (p, .ok p.state.hunks) ∧
      (finish p).2 = .ok hunks ∧ (finish p).1.state.environmentId = env := by
  obtain ⟨st, hr, hc⟩ := processLines_patch h he hp
  have hlines := patchLines_printable he (h.printable hp)
  rw [append_assoc, StreamingPatchParser.default, pushDelta_unlines (endPatchMarker ++ tail) _ hlines _ _ 0 hr]
  generalize 0 + (patchLines env body).length = n
  rcases mem_cons.1 ht with rfl | ht
  · refine ⟨⟨endPatchMarker, st, n⟩, ?_, by rw [finish_endPatch hc], by rw [finish_endPatch hc]⟩
    rw [append_nil, pushDelta_open st n endPatchMarker [] (by decide), nil_append]
  · cases mem_singleton.1 ht
    refine ⟨⟨[], ⟨.endedPatch, hunks, env⟩, n + 1⟩, ?_, rfl, rfl⟩
    rw [pushDelta_line ⟨by decide, by decide⟩ (hc.processLine_endPatch (n + 1))]
    rfl

theorem trim_text (body : List Str) (env : Option Str) {tail : Str} (ht : tail ∈ [[], ['\n']]) :
    (unlines (patchLines env body) ++ endPatchMarker ++ tail).trim = unlines (patchLines env body) ++ endPatchMarker := by
  have hend : (unlines (patchLines env body) ++ endPatchMarker).trimEnd = unlines (patchLines env body) ++ endPatchMarker :=
    trimEnd_append _ (by decide) (by decide)
  have hstart : (unlines (patchLines env body) ++ endPatchMarker ++ tail).trimStart =
      unlines (patchLines env body) ++ endPatchMarker ++ tail :=
    trimStart_eq_self fun c hc => by
      obtain rfl : '*' = c := Option.some.inj hc
      decide
  rw [trim, hstart]
  rcases mem_cons.1 ht with rfl | ht
  · rw [append_nil, hend]
  · cases mem_singleton.1 ht
    rw [trimEnd, rdropWhile_concat_pos _ _ _ (by decide)]
    exact hend

theorem lines_text (hl : ∀ l ∈ ls, PrintableLine l) : (unlines ls ++ endPatchMarker).lines = ls ++ [endPatchMarker] := by
  have hs : (unlines ls ++ endPatchMarker).split '\n' = ls ++ [endPatchMarker] := by
    rw [split_unlines_append _ ls fun l hm => (hl l hm).one_line, split_of_not_mem '\n' _ (by decide)]
  have hmap : ls.map dropCr = ls :=
    (map_congr_left fun l hm => dropCr_eq_self (hl l hm).no_cr).trans (map_id ls)
  have hne : [endPatchMarker].filter (fun l => !l.isEmpty) = [endPatchMarker] := by decide
  simp only [lines, hs, dropLast_concat, getLast?_concat, hmap, Option.toList_some, hne]

theorem joinNl_concat (e : Str) : ∀ ls, joinNl (ls ++ [e]) = unlines ls ++ e
  | [] | [l] => by simp [joinNl, unlines, List.intercalate]
  | l :: m :: ls => by
    have ih := joinNl_concat e (m :: ls)
    simp only [joinNl, unlines, List.intercalate, cons_append, intersperse_cons_cons, flatten_cons,
      flatMap_cons, append_assoc] at ih ⊢
    rw [ih]

theorem checkPatchBoundariesLenient_text (env : Option Str) (body : List Str) :
    checkPatchBoundariesLenient (patchLines env body ++ [endPatchMarker]) =
      .ok (patchLines env body ++ [endPatchMarker]) := by
  have hcheck : checkStartAndEndLinesStrict (some beginPatchMarker) (some endPatchMarker) = .ok () := by decide
  have hhead : (patchLines env body ++ [endPatchMarker]).head? = some beginPatchMarker := rfl
  have hstrict : checkPatchBoundariesStrict (patchLines env body ++ [endPatchMarker]) =
      .ok (patchLines env body ++ [endPatchMarker]) := by
    rw [checkPatchBoundariesStrict, getLast?_concat, hhead, hcheck]
  rw [checkPatchBoundariesLenient, hstrict]

/-- **A patch reads back as the hunks it was printed from**, whichever of its texts it is, with or without an environment
id, wherever the text is cut on its way into the streaming parser, and as a whole through `parse_patch`. -/
theorem parse_render (hunks : List Hunk) (hp : ∀ h ∈ hunks, Printable h) : Renders hunks none (render hunks) ∧
    ∀ (env : Option Str) (text : Str), (∀ id ∈ env, PrintablePath id) → Renders hunks env text →
      (∀ pieces : List Str, pieces.flatten = text → parsePieces pieces = .ok hunks) ∧
      parsePatch text = .ok ⟨text.trim, hunks, none, env⟩ := by
  refine ⟨renders_render hp, fun env text he hr => ?_⟩
  obtain ⟨body, hb, _, ht, rfl⟩ := hr
  constructor
  · intro pieces hflat
    obtain ⟨p, hpush, hfin, -⟩ := pushDelta_patch hb he hp ht
    have hfeed := feed_flatten pieces .default p _ (hflat ▸ hpush)
    simp only [parsePieces, hfeed, hfin]
  · -- `parse_patch` trims the text, so what the parser sees ends in the marker
    obtain ⟨p, hpush, hfin, henv⟩ := pushDelta_patch hb he hp (show [] ∈ [[], ['\n']] by simp)
    have hlines := lines_text (patchLines_printable he (hb.printable hp))
    rw [append_nil] at hpush
    simp only [parsePatch, parsePatchText, trim_text body env ht, hlines, checkPatchBoundariesLenient_text,
      joinNl_concat, hpush]
    rw [← Prod.eta (finish p), hfin]
    simp [henv]

def sampleHunks : List Hunk :=
  [.addFile "a".toList "x\n".toList,
   .updateFile "b".toList (some "c".toList) [⟨some "fn f".toList, ["o".toList], ["*** End Patch".toList], true⟩]]

theorem sampleHunks_printable : ∀ h ∈ sampleHunks, Printable h := by
  have hpath : ∀ p ∈ ["a".toList, "b".toList, "c".toList], PrintablePath p := fun p hp =>
    ⟨by revert p; decide, by revert p; decide, by revert p; decide⟩
  have hline : ∀ l ∈ ["x".toList, "o".toList, "*** End Patch".toList], PrintableLine l := fun l hl =>
    ⟨by revert l; decide, by revert l; decide⟩
  rw [sampleHunks, forall_mem_cons, forall_mem_singleton]
  constructor
  · exact @Printable.addFile _ ["x".toList] (hpath _ (by decide)) fun l hl => hline l (by revert l; decide)
  · refine .updateFile (hpath _ (by decide)) (fun p hm => hpath p ?_) (by decide) fun c hc => ?_
    · cases hm
      decide
    · cases mem_singleton.1 hc
      refine ⟨fun c hm => ?_, by decide, fun l hl => hline l ?_, fun l hl => hline l ?_⟩
      · cases hm
        exact ⟨by decide, by decide, by decide⟩
      · cases mem_singleton.1 hl
        decide
      · cases mem_singleton.1 hl
        decide

theorem parse_render_sample : parsePatch (render sampleHunks) = .ok ⟨(render sampleHunks).trim, sampleHunks, none, none⟩ :=
  have h := parse_render sampleHunks sampleHunks_printable
  (h.2 none _ (by simp) h.1).2

end Owc.Patch
