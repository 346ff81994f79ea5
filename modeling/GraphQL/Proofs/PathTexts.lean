import GraphQL.Path
import GraphQL.Proofs.Names

/-!
# Texts of paths

A text is cut at its slashes, and what stands between two of them is an index wherever it can be
one. A name in a path is read back from its text only if the cuts leave it whole and it does not
look like an index. Whatever is read from a text is of this kind, so that what is lost of another
path is lost for good: no two names make up for each other. The names on the paths of errors are
names of the document, and those can be read back.

Results:
* `Path.pieces_eq_splitOn`, `Path.toList_text`: cutting at slashes, and a text as its pieces.
* `Path.readIndex?_eq_some_iff`: what is read as an index.
* `Path.plain_ofText`, `Path.ofText_text_iff`: what is read from texts is just what is read back.
* `IsName.isKey`: names of documents.
* `paths_survive_texts`: texts, paths and the paths of errors.
-/

namespace GraphQL

namespace Path

/-! ## Cutting at slashes -/

theorem pieces_eq_splitOn (cs : List Char) : pieces cs = cs.splitOn '/' := by
  induction cs with
  | nil => rfl
  | cons c rest ih =>
    rw [pieces, ih, List.splitOn_cons_eq_if_modifyHead]
    by_cases h : c = '/'
    · rw [if_pos h, if_pos (beq_iff_eq.mpr h)]
    · rw [if_neg h, if_neg (mt beq_iff_eq.mp h)]
      cases hpieces : rest.splitOn '/' with
      | nil => exact absurd hpieces (List.splitOn_ne_nil _ _)
      | cons piece others => rfl

/-- No piece has a slash. -/
theorem slash_not_mem_pieces (cs : List Char) : ∀ piece ∈ pieces cs, '/' ∉ piece := by
  induction cs with
  | nil =>
    intro piece hm
    rw [List.mem_singleton.mp hm]
    exact List.not_mem_nil
  | cons c rest ih =>
    rw [pieces]
    split
    · exact List.forall_mem_cons.mpr ⟨List.not_mem_nil, ih⟩
    · next hc =>
      have hfirst : ∀ piece, '/' ∉ piece → '/' ∉ c :: piece := fun piece hpiece hm =>
        (List.mem_cons.mp hm).elim (fun he => hc he.symm) hpiece
      split
      · next piece others hpieces =>
        rw [hpieces] at ih
        obtain ⟨hpiece, hothers⟩ := List.forall_mem_cons.mp ih
        exact List.forall_mem_cons.mpr ⟨hfirst piece hpiece, hothers⟩
      · exact List.forall_mem_cons.mpr ⟨hfirst [] List.not_mem_nil, nofun⟩

theorem intercalate_cons (separator piece : List Char) (others : List (List Char)) :
    separator.intercalate (piece :: others) = piece ++ separator.intercalate ([] :: others) := by
  cases others with
  | nil => rw [List.intercalate_singleton, List.intercalate_singleton, List.append_nil]
  | cons other rest =>
    rw [List.intercalate_cons_cons, List.intercalate_cons_cons, List.nil_append, List.append_assoc]

/-- A text is an empty piece and the texts of the segments, with slashes between them. -/
theorem toList_text (path : Path) :
    path.text.toList =
      ['/'].intercalate ([] :: path.segments.map fun segment => segment.text.toList) := by
  rw [text, String.toList_join, List.flatMap_map]
  induction path.segments with
  | nil => rfl
  | cons segment rest ih =>
    rw [List.flatMap_cons, ih, String.toList_append, List.map_cons, List.intercalate_cons_cons,
      intercalate_cons ['/'] segment.text.toList, List.append_assoc]
    rfl

/-! ## Indices -/

/-- The digits of a number have its value. -/
theorem digitsValue_toDigits (i : Nat) : digitsValue (Nat.toDigits 10 i) = i := by
  rw [digitsValue, ← Nat.ofDigitChars_eq_foldl, Nat.ofDigitChars_ten_toDigits]

/-- A text that is an index: decimal digits, with leading zeros and a plus sign if need be, for a
    number that fits 64 bits. -/
def IsIndex (cs : List Char) (i : Nat) : Prop :=
  ∃ sign digits, cs = sign ++ digits ∧ (sign = [] ∨ sign = ['+']) ∧ digits ≠ [] ∧
    (∀ c ∈ digits, c.isDigit = true) ∧ digitsValue digits = i ∧ i < indexBound

theorem readIndex?_eq_some_iff {cs : List Char} {i : Nat} :
    readIndex? cs = some i ↔ IsIndex cs i := by
  have hdigits (digits : List Char) :
      (if digits.isEmpty then none
        else if digits.all Char.isDigit then
          if digitsValue digits < indexBound then some (digitsValue digits) else none
        else none) = some i ↔
      digits ≠ [] ∧ (∀ c ∈ digits, c.isDigit = true) ∧ digitsValue digits = i ∧
        i < indexBound := by
    grind
  unfold readIndex?
  split
  · next rest =>
    refine (hdigits rest).trans ⟨fun h => ⟨['+'], rest, rfl, .inr rfl, h⟩, ?_⟩
    rintro ⟨sign, digits, hcs, rfl | rfl, hne, hall, h⟩
    · rw [List.nil_append] at hcs
      exact absurd (hall '+' (hcs ▸ List.mem_cons_self)) (by decide)
    · cases hcs
      exact ⟨hne, hall, h⟩
  · next hplus =>
    refine (hdigits cs).trans ⟨fun h => ⟨[], cs, rfl, .inl rfl, h⟩, ?_⟩
    rintro ⟨sign, digits, rfl, rfl | rfl, h⟩
    · exact h
    · exact absurd rfl (hplus digits)

/-! ## Segments -/

/-- A name that can be told from an index in a text and holds no slash. -/
structure IsKey (name : String) : Prop where
  nonempty : name ≠ ""
  slash : '/' ∉ name.toList
  index : ∀ i, ¬ IsIndex name.toList i

/-- Whether a segment is what its text says. -/
def Segment.Plain : Segment → Prop
  | .index i => i < indexBound
  | .key name => IsKey name

/-- The text of a plain segment is read as the segment. -/
theorem Segment.Plain.read {segment : Segment} (h : segment.Plain) :
    readSegment segment.text.toList = segment := by
  cases segment with
  | index i =>
    have hread : readIndex? (toString i).toList = some i := by
      rw [readIndex?_eq_some_iff, Nat.toString_eq_repr, Nat.toList_repr]
      exact ⟨[], _, rfl, .inl rfl, Nat.toDigits_ne_nil,
        fun c => Nat.isDigit_of_mem_toDigits (by decide) (by decide), digitsValue_toDigits i, h⟩
    rw [text, readSegment, hread]
  | key name =>
    have hread : readIndex? name.toList = none :=
      Option.eq_none_iff_forall_ne_some.mpr fun i hi => h.index i (readIndex?_eq_some_iff.mp hi)
    rw [text, readSegment, hread, String.ofList_toList]

/-- The text of a plain segment is one piece. -/
theorem Segment.Plain.piece {segment : Segment} (h : segment.Plain) :
    segment.text.toList ≠ [] ∧ '/' ∉ segment.text.toList := by
  cases segment with
  | index i =>
    rw [text, Nat.toString_eq_repr, Nat.toList_repr]
    refine ⟨Nat.toDigits_ne_nil, fun hm => ?_⟩
    have hdigit := Nat.isDigit_of_mem_toDigits (by decide) (by decide) hm
    exact absurd hdigit (by decide)
  | key name => exact ⟨mt String.toList_eq_nil_iff.mp h.nonempty, h.slash⟩

/-- What is read from a piece is plain. -/
theorem plain_readSegment {piece : List Char} (hne : piece ≠ []) (hslash : '/' ∉ piece) :
    (readSegment piece).Plain := by
  rw [readSegment]
  split
  · next i hread =>
    obtain ⟨_, _, _, _, _, _, _, hlt⟩ := readIndex?_eq_some_iff.mp hread
    exact hlt
  · next hread =>
    have htext : (String.ofList piece).toList = piece := String.toList_ofList
    refine ⟨fun he => hne ?_, ?_, fun i hi => ?_⟩
    · rw [← htext, he, String.toList_empty]
    · rwa [htext]
    · rw [htext, ← readIndex?_eq_some_iff, hread] at hi
      cases hi

/-! ## Paths -/

/-- Whether every segment of a path is what its text says. -/
def Plain (path : Path) : Prop := ∀ segment ∈ path.segments, segment.Plain

/-- The segments of a path are plain if its indices fit 64 bits and its names are no indices and
    hold no slashes. -/
theorem plain_iff {path : Path} :
    path.Plain ↔ path.Representable ∧ ∀ name, .key name ∈ path.segments → IsKey name := by
  constructor
  · exact fun h => ⟨fun i hi => h (.index i) hi, fun name hname => h (.key name) hname⟩
  · rintro ⟨hindices, hnames⟩ segment hm
    cases segment with
    | index i => exact hindices i hm
    | key name => exact hnames name hm

/-- Whatever is read from a text is plain. -/
theorem plain_ofText (s : String) : (ofText s).Plain := by
  intro segment hm
  obtain ⟨piece, hpiece, rfl⟩ := List.mem_map.mp hm
  obtain ⟨hmem, hne⟩ := List.mem_filter.mp hpiece
  refine plain_readSegment ?_ (slash_not_mem_pieces _ piece hmem)
  rintro rfl
  exact Bool.false_ne_true hne

/-- Plain paths are read back from their texts. -/
theorem ofText_text {path : Path} (h : path.Plain) : ofText path.text = path := by
  have hslash : ∀ piece ∈ [] :: path.segments.map fun segment => segment.text.toList,
      '/' ∉ piece := by
    refine List.forall_mem_cons.mpr ⟨List.not_mem_nil, ?_⟩
    rw [List.forall_mem_map]
    exact fun segment hm => (h segment hm).piece.2
  have hpieces : (path.segments.map fun segment => segment.text.toList).filter
      (fun piece => !piece.isEmpty) = path.segments.map fun segment => segment.text.toList := by
    rw [List.filter_eq_self, List.forall_mem_map]
    intro segment hm
    rw [Bool.not_eq_true', List.isEmpty_eq_false_iff]
    exact (h segment hm).piece.1
  have hread : path.segments.map (fun segment => readSegment segment.text.toList) =
      path.segments.map id :=
    List.map_congr_left fun segment hm => (h segment hm).read
  rw [ofText, pieces_eq_splitOn, toList_text, List.splitOn_intercalate _ hslash (by simp),
    List.filter_cons_of_neg (by simp), hpieces, List.map_map]
  exact congrArg mk (hread.trans (List.map_id _))

/-- A path is read back from its text if and only if it is plain. -/
theorem ofText_text_iff {path : Path} : ofText path.text = path ↔ path.Plain :=
  ⟨fun h => h ▸ plain_ofText path.text, ofText_text⟩

end Path

/-! ## Paths of errors -/

/-- Letters stand behind the digits. -/
theorem val_le_of_isAlpha {c : Char} (h : c.isAlpha = true) : 'A'.val ≤ c.val := by
  rcases (Bool.or_eq_true c.isUpper c.isLower).mp h with hupper | hlower
  · exact (of_decide_eq_true hupper).1
  · have hle : 'a'.val ≤ c.val := of_decide_eq_true (Bool.and_elim_left hlower)
    exact UInt32.le_trans (by decide) hle

theorem isDigit_of_isNameStart {c : Char} (h : Token.isNameStart c = true) : c.isDigit = false := by
  rw [Token.isNameStart, Bool.or_eq_true, decide_eq_true_eq] at h
  rcases h with halpha | rfl
  · rw [Bool.eq_false_iff]
    intro hdigit
    have hle : c.toNat ≤ '9'.toNat := (Char.isDigit_iff_toNat.mp hdigit).2
    have hlt : 'A'.toNat ≤ c.toNat := UInt32.le_iff_toNat_le.mp (val_le_of_isAlpha halpha)
    exact absurd (hlt.trans hle) (by decide)
  · rfl

/-- Names of documents are told from indices and hold no slashes. -/
theorem IsName.isKey {name : String} (h : IsName name) : Path.IsKey name := by
  obtain ⟨first, rest, hname, hfirst, hrest⟩ := h
  constructor
  · rintro rfl
    cases hname
  · rw [hname]
    intro hm
    rcases List.mem_cons.mp hm with rfl | hm
    · exact absurd hfirst (by decide)
    · exact absurd (hrest _ hm) (by decide)
  · rintro i ⟨sign, digits, hcs, hsign, hne, hdigits, -⟩
    rw [hname] at hcs
    rcases hsign with rfl | rfl
    · rw [List.nil_append] at hcs
      have hdigit : first.isDigit = true := hdigits first (hcs ▸ List.mem_cons_self)
      rw [isDigit_of_isNameStart hfirst] at hdigit
      cases hdigit
    · cases hcs
      exact absurd hfirst (by decide)

/-- A path with names of a document is read back from its text if its indices fit 64 bits. -/
theorem Path.Keyed.ofText_text_iff {path : Path} (h : path.Keyed IsName) :
    ofText path.text = path ↔ path.Representable := by
  rw [Path.ofText_text_iff, plain_iff]
  exact and_iff_left fun name hname => (h name hname).isKey

/-- What is read from a text is read back from its own text. Of all paths, those are read back whose
    indices fit 64 bits and whose names are no indices, hold no slashes and are not empty. The names
    on the paths of errors are names of the document, so that nothing but an index that does not fit
    could keep such a path from being read back. -/
theorem paths_survive_texts :
    (∀ s, Path.ofText (Path.ofText s).text = Path.ofText s) ∧
    (∀ path, Path.ofText path.text = path ↔
      path.Representable ∧ ∀ name, .key name ∈ path.segments → Path.IsKey name) ∧
    ∀ {ref : Type} (service : Service ref) (objects : ref → ObjectType ref) (bound start : Nat)
      (request : Request) (answer : Timed (Reply ref)) (limit count : Nat)
      (taken : ResponseStream.Taken ref),
      service.answer objects bound request start = some answer →
      answer.value.toStream.take limit count answer.finish = some taken →
      ∀ response ∈ taken.responses, ∀ error ∈ response.value.errors, ∀ path,
        error.path = some path →
          (∀ name, .key name ∈ path.segments → IsName name) ∧
          (Path.ofText path.text = path ↔ path.Representable) := by
  refine ⟨fun s => Path.ofText_text (Path.plain_ofText s),
    fun path => Path.ofText_text_iff.trans Path.plain_iff, ?_⟩
  intro ref service objects bound start request answer limit count taken hanswer htaken response
    hresponse error herror path hpath
  have hdocument : ∀ document, service.readDocument request.query = .ok document →
      document.Keyed IsName := fun document hread => ExecutableDocument.keyed_of_read hread
  have hstream := service.answer_keyed objects bound hdocument start answer hanswer
  have hkeyed := hstream.take htaken response hresponse error herror path hpath
  exact ⟨hkeyed, hkeyed.ofText_text_iff⟩

namespace Sample

/-- Asks for the fuel of a fleet, with aliases. -/
def fleetRequest : Request where
  query := "\x7bf:fleet\x7bl_1:fuel\x7d\x7d"

/-- What is read of that. -/
def fleetDocument : ExecutableDocument where
  fragments := []
  operations := [⟨none, .query, [], [.field ⟨some "f", "fleet", [],
    [.field ⟨some "l_1", "fuel", [], [], false, {}, ⟨1, 10⟩⟩], true, {}, ⟨1, 2⟩⟩]⟩]

theorem scan_fleet :
    Token.scan ({} : Configuration).parser.pieces fleetRequest.query =
      some (line [(.braceL, 1), (.name "f", 2), (.colon, 3), (.name "fleet", 4), (.braceL, 9),
        (.name "l_1", 10), (.colon, 13), (.name "fuel", 14), (.braceR, 18), (.braceR, 19)]) := by
  decide +kernel

theorem readDocument_fleet (delay width : Nat) :
    (service delay width).readDocument fleetRequest.query = .ok fleetDocument :=
  (ExecutableDocument.read_of_scan scan_fleet rfl).trans rfl

end Sample

/-- The fuel of a fleet fails in its first ship, and the second ship is no ship. -/
theorem paths_survive_texts_fleet :
    ∃ (answer : Timed (Reply Unit)) (taken : ResponseStream.Taken Unit),
      (Sample.service 3 2).answer (fun _ => Sample.ship 3) 20 Sample.fleetRequest 0 = some answer ∧
      answer.value.toStream.take 20 1 answer.finish = some taken ∧
      (taken.responses.flatMap fun response => response.value.errors.map Error.path) =
        [some ⟨[.key "f", .index 0, .key "l_1"]⟩, some ⟨[.key "f", .index 1]⟩] ∧
      ∀ response ∈ taken.responses, ∀ error ∈ response.value.errors, ∀ path,
        error.path = some path → Path.ofText path.text = path := by
  have hexecute : (Sample.service 3 2).execute (fun _ => Sample.ship 3) 20 Sample.fleetRequest =
      (Sample.service 3 2).executeDocument (fun _ => Sample.ship 3) 20 Sample.fleetDocument none
        [] := by
    rw [Service.execute, Sample.readDocument_fleet]
    rfl
  have hrun : ((Sample.service 3 2).answer (fun _ => Sample.ship 3) 20 Sample.fleetRequest 0).bind
      (fun answer => (answer.value.toStream.take 20 1 answer.finish).map fun taken =>
        taken.responses.flatMap fun response => response.value.errors.map Error.path) =
      some [some ⟨[.key "f", .index 0, .key "l_1"]⟩, some ⟨[.key "f", .index 1]⟩] := by
    rw [Service.answer, hexecute]
    decide +kernel
  obtain ⟨answer, hanswer, htake⟩ := Option.bind_eq_some_iff.mp hrun
  obtain ⟨taken, htaken, hpaths⟩ := Option.map_eq_some_iff.mp htake
  refine ⟨answer, taken, hanswer, htaken, hpaths, ?_⟩
  intro response hresponse error herror path hpath
  obtain ⟨-, -, hkeys⟩ := paths_survive_texts
  obtain ⟨-, hread⟩ := hkeys _ _ _ _ _ _ _ _ _ hanswer htaken response hresponse error herror path
    hpath
  have hm : some path ∈ [some ⟨[.key "f", .index 0, .key "l_1"]⟩, some ⟨[.key "f", .index 1]⟩] := by
    rw [← hpaths, ← hpath]
    exact List.mem_flatMap.mpr ⟨response, hresponse, List.mem_map_of_mem herror⟩
  refine hread.mpr fun i hi => ?_
  simp only [List.mem_cons, Option.some.injEq, List.not_mem_nil, or_false] at hm
  rcases hm with rfl | rfl
  · obtain rfl : i = 0 := by simpa using hi
    decide
  · obtain rfl : i = 1 := by simpa using hi
    decide

end GraphQL
