import OpenWebCodex.ProjectFrame
/-!
# ProjectPayload — the payload of an event keeps no secret

Messages that are alike have events with the same payload (`projectMessage_alike`): what is copied is sanitized first, and
what is read as it stands is a string under a plain key.
-/
namespace Owc.Projection

variable {m n : Json.Map}

section

variable (h : alikeMembers m n = true)
include h

theorem copySanitized_eq : copySanitized m = copySanitized n := by
  funext data key
  unfold copySanitized
  rw [sanitized_get_eq h]

theorem stringField_eq (key : String) (hk : plainKey key.toList) :
    stringField m key = stringField n key := alikeMembers_str h hk

theorem nestedStringField_eq (objectKey fieldKey : String) (ho : isSensitiveKey objectKey.toList = false)
    (hf : plainKey fieldKey.toList) :
    nestedStringField m objectKey fieldKey = nestedStringField n objectKey fieldKey := by
  unfold nestedStringField
  rcases rel_cases (alikeMembers_object h ho) with ⟨hm, hn⟩ | ⟨x, y, hm, hn, hxy⟩ <;> rw [hm, hn]
  exact stringField_eq hxy fieldKey hf

theorem projectItem_eq : projectItem m = projectItem n := by
  unfold projectItem
  rw [copySanitized_eq h, stringField_eq h "type" (by decide), stringField_eq h "phase" (by decide)]

end

theorem projectEventData_eq (crates : Crates) (method : Str) (h : alikeMembers m n) :
    projectEventData crates method m = projectEventData crates method n := by
  unfold projectEventData
  rw [copySanitized_eq h, stringField_eq h "requestId" (by decide)]

/-! ## Messages -/

theorem messageMethod_eq (h : alikeMembers m n) : messageMethod m = messageMethod n := by
  unfold messageMethod
  rw [stringField_eq h "method" (by decide)]

theorem messageParams_alike (h : alikeMembers m n) : alikeMembers (messageParams m) (messageParams n) := by
  unfold messageParams
  rcases rel_cases (alikeMembers_object h (k := "params".toList) (by decide)) with ⟨hm, hn⟩ | ⟨x, y, hm, hn, hxy⟩
  · rw [hm, hn]
    rfl
  · rw [hm, hn]
    exact hxy

theorem messageItem_alike (h : alikeMembers m n) : Option.Rel (fun x y => alikeMembers x y) (messageItem m) (messageItem n) :=
  alikeMembers_object (messageParams_alike h) (by decide)

theorem projectMessage_alike (crates : Crates) (h : alikeMembers m n) {e} (he : projectMessage crates m = some e) :
    ∃ e', projectMessage crates n = some e' ∧ e'.payload = e.payload ∧
      e.inlineArtifact = (messageItem m).bind projectInlineVisualizationArtifact ∧
      e'.inlineArtifact = (messageItem n).bind projectInlineVisualizationArtifact := by
  have hp := messageParams_alike h
  unfold projectMessage at he ⊢
  dsimp only at he ⊢
  rw [← messageMethod_eq h, ← stringField_eq hp "threadId" (by decide),
    ← stringField_eq hp "thread_id" (by decide), ← stringField_eq hp "turnId" (by decide),
    ← stringField_eq hp "turn_id" (by decide), ← stringField_eq hp "itemId" (by decide),
    ← stringField_eq hp "item_id" (by decide),
    ← nestedStringField_eq hp "turn" "id" (by decide) (by decide),
    ← projectEventData_eq crates _ hp]
  have hi := messageItem_alike h
  generalize messageItem m = x at he hi ⊢
  generalize messageItem n = y at hi ⊢
  split at he
  · cases he
  rename_i threadId hthread
  cases hi with
  | none =>
    cases he
    exact ⟨_, rfl, rfl, rfl, rfl⟩
  | some hxy =>
    cases he
    refine ⟨_, rfl, ?_, rfl, rfl⟩
    simp only [Option.bind_some, projectItem_eq hxy, stringField_eq hxy "id" (by decide),
      stringField_eq hxy "type" (by decide)]

end Owc.Projection
