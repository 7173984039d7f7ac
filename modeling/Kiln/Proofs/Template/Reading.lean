import Kiln.Container.Blueprint
import Kiln.Tree.Reader
/-!
# Reading a template that is known

What a text of this library is read as can be computed, if scanning is given a bound on the
lexemes (`scanWithin`), and the characters of the text. `Template.Reads` says that a text is
a template with certain holes and a body like a certain tree; `Template.read_of_checks`
shows it by such a computation.
-/

namespace Kiln

/-! ## Scanning within a bound -/

/-- One lexeme off the front of a text, where `again` scans the rest. -/
def scanStep (again : Nat → List Char → Scan) (pos : Nat) (cs : List Char) : Scan :=
  match cs with
  | [] => .done
  | c :: rest =>
    if isBlank c then again (pos + 1) rest
    else if c = ';' then
      let after := rest.dropWhile inComment
      if endsComment after then again (pos + 1 + byteCount (rest.takeWhile inComment)) after
      else .failed ⟨.strayCharacter c, ⟨pos, pos + 1⟩⟩
    else if c = '(' then (again (pos + 1) rest).cons ⟨.opening, ⟨pos, pos + 1⟩⟩
    else if c = ')' then (again (pos + 1) rest).cons ⟨.closing, ⟨pos, pos + 1⟩⟩
    else if c = '"' then
      match scanString pos (pos + 1) rest with
      | .error e => .failed e
      | .ok r => (again r.2.1 r.2.2).cons ⟨.atom (.str (String.ofList r.1)), ⟨pos, r.2.1⟩⟩
    else if isSymbolChar c then
      let word := c :: rest.takeWhile isSymbolChar
      let stop := pos + byteCount word
      match wordAtom word with
      | .error f => .failed ⟨f, ⟨pos, stop⟩⟩
      | .ok a => (again stop (rest.dropWhile isSymbolChar)).cons ⟨.atom a, ⟨pos, stop⟩⟩
    else .failed ⟨.strayCharacter c, ⟨pos, pos + c.utf8Size⟩⟩

/-- The tokens of a text of at most that many characters. -/
def scanWithin : Nat → Nat → List Char → Scan
  | 0, _, _ => .done
  | n + 1, pos, cs => scanStep (scanWithin n) pos cs

theorem scan_eq_scanStep (pos : Nat) (cs : List Char) : scan pos cs = scanStep scan pos cs := by
  rw [scan.eq_def, scanStep.eq_def]
  rcases cs with _ | ⟨c, rest⟩
  · rfl
  · dsimp only
    split
    · rfl
    · split
      · rfl
      · split
        · rfl
        · split
          · rfl
          · split
            · split <;> simp_all
            · rfl

/-- One lexeme is read alike if all shorter texts are. -/
theorem scanStep_congr {again again' : Nat → List Char → Scan} {cs : List Char}
    (h : ∀ pos ds, ds.length < cs.length → again pos ds = again' pos ds) (pos : Nat) :
    scanStep again pos cs = scanStep again' pos cs := by
  rcases cs with _ | ⟨c, rest⟩
  · rfl
  · have hrest : rest.length < (c :: rest).length := Nat.lt_succ_self _
    have hdrop : ∀ p : Char → Bool, (rest.dropWhile p).length < (c :: rest).length := fun p =>
      Nat.lt_succ_of_le (List.dropWhile_sublist p).length_le
    rw [scanStep, scanStep]
    dsimp only
    rw [h _ _ hrest, h _ _ (hdrop inComment), h _ _ (hdrop isSymbolChar)]
    split
    · rfl
    · split
      · rfl
      · split
        · rfl
        · split
          · rfl
          · split
            · rcases hstring : scanString pos (pos + 1) rest with e | r
              · rfl
              · dsimp only
                rw [h _ _ (Nat.lt_trans (length_of_scanString hstring) hrest)]
            · rfl

theorem scanWithin_eq_scan : ∀ {n : Nat} {cs : List Char} (pos : Nat), cs.length < n →
    scanWithin n pos cs = scan pos cs
  | n + 1, cs, pos, h => by
    rw [scanWithin, scan_eq_scanStep]
    exact scanStep_congr (fun pos ds hlt => scanWithin_eq_scan pos (by omega)) pos

/-- The forms of a text are known with its characters. -/
theorem readForms_eq {text : String} {cs : List Char} (hcs : text.toList = cs) : readForms text =
    assemble (scanWithin (cs.length + 1) 0 cs).error?
      (scanWithin (cs.length + 1) 0 cs).tokens [] [] := by
  rw [readForms, hcs, scanWithin_eq_scan 0 (Nat.lt_succ_self _)]

namespace Template

/-! ## Templates -/

/-- The holes and the body of a form that is a template. -/
def parts? (form : Tree) : Option (List (String × HoleKind) × Tree) :=
  match form.form? "template" with
  | some (header :: body) =>
    match header.items?.map readHoles, body with
    | some (.ok holes), [single] => some (holes, single)
    | some (.ok holes), first :: second :: rest =>
      some (holes, .node (.leaf (.sym "do") form.span :: first :: second :: rest) form.span)
    | _, _ => none
  | _ => none

theorem read_of_parts {name text : String} {form : Tree} {holes : List (String × HoleKind)}
    {root : Tree} (hforms : readForms text = .ok [form])
    (hparts : parts? form = some (holes, root)) :
    Template.read name text = make name (NameMap.ofList holes) ⟨root, ⟨name, text⟩⟩ := by
  unfold parts? at hparts
  split at hparts
  · rename_i header body hform
    rw [Template.read, hforms]
    dsimp only [bind, Except.bind]
    rw [hform]
    dsimp only
    rcases hitems : header.items? with _ | entries
    · rw [hitems] at hparts
      cases hparts
    · rw [hitems] at hparts
      dsimp only [Option.map_some] at hparts ⊢
      rcases hholes : readHoles entries with e | found
      · rw [hholes] at hparts
        cases hparts
      · rw [hholes] at hparts
        rcases body with _ | ⟨first, _ | ⟨second, rest⟩⟩
        · cases hparts
        · cases hparts
          rfl
        · cases hparts
          rfl
  · cases hparts

/-- The holes and the body of the template that characters spell. -/
def written? (cs : List Char) : Option (List (String × HoleKind) × Tree) :=
  let s := scanWithin (cs.length + 1) 0 cs
  match assemble s.error? s.tokens [] [] with
  | .ok [form] => parts? form
  | _ => none

/-- **What a text is read as can be computed.** -/
theorem read_of_written {name text : String} {cs : List Char} {holes : List (String × HoleKind)}
    {root : Tree} (hcs : text.toList = cs) (h : written? cs = some (holes, root))
    (hholes : (checkHoles name (NameMap.ofList holes) root).toBool = true) :
    ∃ template, Template.read name text = .ok template ∧ template.holes = NameMap.ofList holes ∧
      template.body.root = root := by
  unfold written? at h
  dsimp only at h
  split at h
  · rename_i form hform
    have hread : Template.read name text = _ := read_of_parts ((readForms_eq hcs).trans hform) h
    rw [make] at hread
    split at hread
    · exact ⟨_, hread, rfl, rfl⟩
    · rename_i e he
      rw [he] at hholes
      cases hholes
  · cases h

/-- The text is a template with these holes and a body like this tree. -/
def Reads (name text : String) (holes : List (String × HoleKind)) (body : Tree) : Prop :=
  ∃ template, Template.read name text = .ok template ∧ template.holes = NameMap.ofList holes ∧
    template.body.root.alike body = true

/-- Whether these characters are a template with these holes, whose body passes a test. -/
def checks (name : String) (cs : List Char) (holes : List (String × HoleKind))
    (test : Tree → Bool) :
    Bool :=
  match written? cs with
  | some (found, root) =>
    found = holes && test root && (checkHoles name (NameMap.ofList found) root).toBool
  | none => false

theorem read_of_checks {name text : String} {cs : List Char} {holes : List (String × HoleKind)}
    (test : Tree → Bool) (hcs : text.toList = cs) (h : checks name cs holes test = true) :
    ∃ template, Template.read name text = .ok template ∧ template.holes = NameMap.ofList holes ∧
      test template.body.root = true := by
  unfold checks at h
  split at h
  · rename_i found root hwritten
    rw [Bool.and_eq_true, Bool.and_eq_true, decide_eq_true_eq] at h
    obtain ⟨⟨rfl, htest⟩, hholes⟩ := h
    obtain ⟨template, hread, hfound, hroot⟩ := read_of_written hcs hwritten hholes
    exact ⟨template, hread, hfound, hroot ▸ htest⟩
  · cases h

end Template

end Kiln
