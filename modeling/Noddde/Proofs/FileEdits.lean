import Noddde.Cli.AddCommand
/-!
# What edits make of a file
-/

namespace Noddde.Cli

open Unicode Words Lines

variable {α β : Type} {files files' : Files} {path content : JsString}

/-! ## Lines -/

theorem splitLines_joinLines {lines : List JsString} (h : ∀ l ∈ lines, newline ∉ l)
    (hne : lines ≠ []) : splitLines (joinLines lines) = lines :=
  List.splitOn_intercalate newline h hne

/-- A line with the indentation of the one beside it is inserted as it is. -/
theorem indented_eq {m : JsString} (hcontent : newline ∉ content) {c : UInt16} (hc : c ∈ content)
    (hspace : isSpace c = false) (hindent : indentOf content = indentOf m) :
    indented (indentOf m) content = content := by
  have hsplit : splitLines content = [content] := by
    refine List.splitOnP_eq_singleton fun c hc => beq_eq_false_iff_ne.mpr fun heq => ?_
    exact hcontent (heq ▸ hc)
  have hline : indentOf m ++ trimStart content = content := by
    rw [← hindent]
    exact List.takeWhile_append_dropWhile
  rw [indented, hsplit, List.map_singleton, if_pos (trim_ne_nil hc hspace), hline]
  simp [joinLines, List.intercalate]

/-! ## Programs -/

namespace FileM

theorem exec_bind {program : FileM α} {next : α → FileM β} {a : α}
    (h : program.exec files = (.ok a, files')) :
    (program >>= next).exec files = (next a).exec files' := by
  rw [exec] at h
  rw [exec, ExceptT.run_bind, StateT.run_bind, h]
  rfl

theorem exec_discard {program : FileM α} {a : α} (h : program.exec files = (.ok a, files')) :
    (discard program).exec files = (.ok (), files') := by
  have hdiscard : discard program = (program >>= fun _ => pure ()) := rfl
  rw [hdiscard, exec_bind h]
  rfl

theorem exec_readFile (h : files path = some content) :
    (readFile path).exec files = (.ok content, files) := by
  have hget : (get : FileM Files).exec files = (.ok files, files) := rfl
  rw [readFile, exec_bind hget, h]
  rfl

theorem exec_writeFile (path content : JsString) (files : Files) :
    (writeFile path content).exec files = (.ok (), Function.update files path (some content)) :=
  rfl

theorem exec_writeFileIfNotExists (path content : JsString) (files : Files) :
    ∃ created, (writeFileIfNotExists path content).exec files =
      (.ok created, Function.update files path (some ((files path).getD content))) := by
  have hget : (get : FileM Files).exec files = (.ok files, files) := rfl
  cases h : files path with
  | some old =>
    have hexists : (files path).isSome = true := by rw [h]; rfl
    have hsame : Function.update files path (some old) = files := by
      rw [← h, Function.update_eq_self]
    refine ⟨false, ?_⟩
    rw [writeFileIfNotExists, exec_bind hget, if_pos hexists, Option.getD_some, hsame]
    rfl
  | none =>
    refine ⟨true, ?_⟩
    have hmissing : ¬ (files path).isSome = true := by rw [h]; exact Bool.false_ne_true
    rw [writeFileIfNotExists, exec_bind hget, if_neg hmissing]
    rfl

/-- The first of the new files under a path is written, unless there was one before. -/
theorem exec_writeNewFiles (newFiles : List (JsString × JsString)) (files : Files) :
    (writeNewFiles newFiles).exec files =
      (.ok (), fun path => (files path).or (newFiles.lookup path)) := by
  induction newFiles generalizing files with
  | nil =>
    have hsame : (fun path => (files path).or (([] : List (JsString × JsString)).lookup path)) =
        files := funext fun path => Option.or_none
    rw [hsame]
    rfl
  | cons file newFiles ih =>
    obtain ⟨created, hfirst⟩ := exec_writeFileIfNotExists file.1 file.2 files
    have hcons : writeNewFiles (file :: newFiles) =
        (discard (writeFileIfNotExists file.1 file.2) >>= fun _ => writeNewFiles newFiles) := rfl
    rw [hcons, exec_bind (exec_discard hfirst), ih]
    refine congrArg _ (funext fun path => ?_)
    by_cases hpath : path = file.1
    · subst hpath
      rw [Function.update_self, List.lookup_cons, beq_self_eq_true]
      cases files file.1 <;> rfl
    · rw [Function.update_of_ne hpath, List.lookup_cons, beq_false_of_ne hpath]

/-! ## Edits -/

variable {before after : List JsString} {m : JsString}

theorem exec_fileContains {search : JsString} (h : files path = some content) :
    (fileContains path search).exec files = (.ok (includes search content), files) := by
  rw [fileContains, exec_bind (exec_readFile h)]
  rfl

theorem exec_appendToBarrel (line : JsString) (h : (files path).isSome = true) :
    ∃ text, (appendToBarrel path line).exec files =
      (.ok (), Function.update files path (some text)) := by
  obtain ⟨content, hcontent⟩ := Option.isSome_iff_exists.mp h
  refine ⟨trimEnd content ++ newline :: line ++ [newline], ?_⟩
  rw [appendToBarrel, exec_bind (exec_readFile hcontent)]
  rfl

theorem exec_insertBeforeMarker {marker : Marker}
    (hfile : files path = some (joinLines (before ++ m :: after)))
    (hlines : ∀ l ∈ before ++ m :: after, newline ∉ l)
    (hbefore : ∀ l ∈ before, marker.test l = false) (hm : marker.test m = true)
    (hcontent : newline ∉ content) {c : UInt16} (hc : c ∈ content) (hspace : isSpace c = false)
    (hindent : indentOf content = indentOf m) :
    (insertBeforeMarker path marker content false).exec files =
      (.ok { inserted := true, usedFallback := false }, Function.update files path
        (some (joinLines (before ++ content :: m :: after)))) := by
  rw [insertBeforeMarker, exec_bind (exec_readFile hfile)]
  simp only [splitLines_joinLines hlines (by simp), findIdx?_append_cons hbefore hm]
  rw [exec_bind (exec_writeFile _ _ _), insertIdx_append, getD_append_cons,
    indented_eq hcontent hc hspace hindent]
  rfl

theorem exec_insertAfterLastMatch {pattern : Marker}
    (hfile : files path = some (joinLines (before ++ m :: after)))
    (hlines : ∀ l ∈ before ++ m :: after, newline ∉ l) (hm : pattern.test m = true)
    (hafter : ∀ l ∈ after, pattern.test l = false)
    (hcontent : newline ∉ content) {c : UInt16} (hc : c ∈ content) (hspace : isSpace c = false)
    (hindent : indentOf content = indentOf m) :
    (insertAfterLastMatch path pattern content).exec files =
      (.ok true, Function.update files path
        (some (joinLines (before ++ m :: content :: after)))) := by
  rw [insertAfterLastMatch, exec_bind (exec_readFile hfile)]
  simp only [splitLines_joinLines hlines (by simp), lastIndex_append_cons hm hafter]
  rw [exec_bind (exec_writeFile _ _ _), insertIdx_append_cons, getD_append_cons,
    indented_eq hcontent hc hspace hindent]
  rfl

theorem exec_insertImports {new : List JsString}
    (hfile : files path = some (joinLines (before ++ m :: after)))
    (hlines : ∀ l ∈ before ++ m :: after, newline ∉ l) (hm : importPrefix.isPrefixOf m = true)
    (hafter : ∀ l ∈ after, importPrefix.isPrefixOf l = false) (hnew : new ≠ []) :
    (insertImports path (joinLines new)).exec files =
      (.ok (), Function.update files path
        (some (joinLines (before ++ m :: (new ++ after))))) := by
  have hnested : joinLines (before ++ m :: joinLines new :: after) =
      joinLines (before ++ m :: (new ++ after)) := by
    have h : [newline].intercalate ((before ++ [m]) ++ [newline].intercalate new :: after) =
        [newline].intercalate ((before ++ [m]) ++ (new ++ after)) := intercalate_nested hnew
    simpa [joinLines] using h
  rw [insertImports, exec_bind (exec_readFile hfile)]
  simp only [splitLines_joinLines hlines (by simp), lastIndex_append_cons hm hafter]
  rw [insertIdx_append_cons, hnested]
  rfl

end FileM

end Noddde.Cli
