import TemplateRecognizer.Proofs.Json.Exactness
import TemplateRecognizer.Proofs.Json.Stored

/-!
# Options overlay the defaults

An object of options may list any of them, in any order and among members of other names, and what
it lists takes the place of the defaults.  It is refused as a whole if it lists an option twice, or
with a value of another type.
-/

set_option autoImplicit false

namespace TemplateRecognizer

namespace Json

/-! ## Fields with defaults -/

/-- Says that members give a field at most once, and then with the stored form of a value that
fits. -/
structure GivesAtMostOnce {α : Type} (store : α → Json) (fits : α → Prop)
    (members : List (Option String × Json)) (name : String) : Prop where
  once : timesGiven members name ≤ 1
  stored : ∀ value, (some name, value) ∈ members → ∃ given, fits given ∧ value = store given

/-- `Settles store members name absent value` says that `value` is the one that members give to
the field `name`, or `absent` if they give none. -/
inductive Settles {α : Type} (store : α → Json) (members : List (Option String × Json))
    (name : String) (absent : α) : α → Prop where
  | absent : timesGiven members name = 0 → Settles store members name absent absent
  | given {value : α} :
      (some name, store value) ∈ members → Settles store members name absent value

section

variable {α : Type} {store : α → Json} {fits : α → Prop} {decode : Json → Option α}
  {members : List (Option String × Json)} {name : String} {absent : α}

theorem GivesAtMostOnce.exists_settled (gives : GivesAtMostOnce store fits members name)
    (reads : ∀ given, fits given → decode (store given) = some given) (absent : α) :
    ∃ field value, Gives members name field ∧ Options.given decode absent field = some value ∧
      Settles store members name absent value := by
  obtain ⟨field, given⟩ := exists_gives gives.once
  cases given with
  | absent never => exact ⟨none, absent, .absent never, rfl, .absent never⟩
  | once once inside =>
    obtain ⟨value, fit, rfl⟩ := gives.stored _ inside
    exact ⟨_, value, .once once inside, reads value fit, .given inside⟩

theorem Gives.givesAtMostOnce {field : Option Json} {value : α} (gives : Gives members name field)
    (settled : Options.given decode absent field = some value)
    (faithful : ∀ given value, (some name, value) ∈ members → decode value = some given →
      fits given ∧ value = store given) :
    GivesAtMostOnce store fits members name := by
  refine ⟨gives.timesGiven_le, ?_⟩
  intro other inside
  obtain rfl := gives.eq_some inside
  exact ⟨value, faithful value other inside settled⟩

end

end Json

namespace Options

/-- Holds of members that list no option twice and none with a value of another type: the two
checks are truth values, and the depth is a number of 64 bits. -/
structure Listed (members : List (Option String × Json)) : Prop where
  named : Json.Named members
  strictTagNames : Json.GivesAtMostOnce Json.bool (fun _ => True) members "strict_tag_names"
  requireEndOfInput :
    Json.GivesAtMostOnce Json.bool (fun _ => True) members "require_end_of_input"
  maxDepth : Json.GivesAtMostOnce Json.ofNat (· < UInt64.size) members "max_depth"

/-- Says that options are the defaults, but for those that members list. -/
structure Overlays (options : Options) (members : List (Option String × Json)) : Prop where
  strictTagNames : Json.Settles Json.bool members "strict_tag_names"
    ({} : Options).strictTagNames options.strictTagNames
  requireEndOfInput : Json.Settles Json.bool members "require_end_of_input"
    ({} : Options).requireEndOfInput options.requireEndOfInput
  maxDepth : Json.Settles Json.ofNat members "max_depth"
    ({} : Options).maxDepth options.maxDepth

section

variable {members : List (Option String × Json)}

theorem Listed.exists_ofJson? (listed : Listed members) :
    ∃ options, ofJson? (.object members) = some options ∧ options.Overlays members := by
  have flags : ∀ flag, True → Json.bool? (.bool flag) = some flag := fun _ _ => rfl
  have depths : ∀ depth, depth < UInt64.size → Json.word? (.ofNat depth) = some depth :=
    fun _ fits => Json.word?_ofNat fits
  obtain ⟨_, strict, gives, given, settled⟩ := listed.strictTagNames.exists_settled flags
    ({} : Options).strictTagNames
  obtain ⟨_, atEnd, gives', given', settled'⟩ := listed.requireEndOfInput.exists_settled flags
    ({} : Options).requireEndOfInput
  obtain ⟨_, depth, gives'', given'', settled''⟩ := listed.maxDepth.exists_settled depths
    ({} : Options).maxDepth
  refine ⟨⟨strict, atEnd, depth⟩, ?_, ⟨settled, settled', settled''⟩⟩
  have read := Json.fields?_object_eq_some_iff.mpr
    ⟨listed.named, .cons gives (.cons gives' (.cons gives'' .nil))⟩
  rw [ofJson?, read]
  simp only [Option.bind_eq_bind, Option.bind_some, given, given', given'']

theorem listed_of_ofJson? {options : Options} (sound : (Json.object members).Sound)
    (loaded : ofJson? (.object members) = some options) : Listed members := by
  have flags : ∀ (name : String) (flag : Bool) (value : Json), (some name, value) ∈ members →
      value.bool? = some flag → True ∧ value = .bool flag := by
    intro name flag value _ read
    cases value with
    | bool flag' =>
      cases read
      exact ⟨trivial, rfl⟩
    | _ => cases read
  have depths : ∀ (name : String) (depth : Nat) (value : Json), (some name, value) ∈ members →
      value.word? = some depth → depth < UInt64.size ∧ value = .ofNat depth :=
    fun _ _ _ inside read => Json.eq_ofNat_of_word? (Json.sound_object_iff.mp sound _ inside) read
  rw [ofJson?] at loaded
  split at loaded
  · rename_i strict atEnd depth read
    obtain ⟨named, _ | ⟨gives, _ | ⟨gives', _ | ⟨gives'', _⟩⟩⟩⟩ :=
      Json.fields?_object_eq_some_iff.mp read
    simp only [Option.bind_eq_bind, Option.bind_eq_some_iff] at loaded
    obtain ⟨_, settled, _, settled', _, settled'', _⟩ := loaded
    exact
      { named
        strictTagNames := gives.givesAtMostOnce settled (flags _)
        requireEndOfInput := gives'.givesAtMostOnce settled' (flags _)
        maxDepth := gives''.givesAtMostOnce settled'' (depths _) }
  · cases loaded

theorem ofJson?_toJson {options : Options} (fits : options.maxDepth < UInt64.size) :
    ofJson? options.toJson = some options := by
  have given : options.toJson.fields? ["strict_tag_names", "require_end_of_input", "max_depth"] =
      some [some (.bool options.strictTagNames), some (.bool options.requireEndOfInput),
        some (.ofNat options.maxDepth)] := by
    simp [toJson, Json.record, Json.fields?, Json.fieldsOf?, Json.field?]
  rw [ofJson?, given]
  simp [Options.given, Json.bool?, Json.word?_ofNat fits]

theorem sound_toJson (options : Options) : options.toJson.Sound := by
  simp [toJson]

end

end Options

/-- An object of options overlays the defaults.  However a text writes members, it loads the
defaults with what the members list in their place, and it loads nothing if they list an option
twice or with a value that is not one of its type.  What options store, they are loaded from. -/
theorem options_overlay_defaults :
    (∀ (members : List (Option String × Json)) (text : String),
      (Json.object members).Written text →
        (Options.Listed members →
          ∃ options, Options.load? text = some options ∧ options.Overlays members) ∧
        (¬Options.Listed members → Options.load? text = none)) ∧
    ∀ options : Options, options.maxDepth < UInt64.size →
      Options.load? options.store = some options := by
  refine ⟨fun members text written => ?_, fun options fits => ?_⟩
  · have loaded : Options.load? text = Options.ofJson? (.object members) := by
      rw [Options.load?, Json.load?, written.read?, Option.bind_some]
    rw [loaded]
    refine ⟨Options.Listed.exists_ofJson?, fun unlisted => ?_⟩
    cases read : Options.ofJson? (.object members) with
    | none => rfl
    | some options => exact absurd (Options.listed_of_ofJson? written.sound read) unlisted
  · rw [Options.load?, Options.store, Json.load?, Json.read?_write _ options.sound_toJson,
      Option.bind_some, Options.ofJson?_toJson fits]

/-- A name may be written with escapes, and a member of another name may hold a known one. -/
theorem options_overlay_defaults_escaped_name :
    (∃ options,
      Options.load? ("\n\x7b\x22x\x22:\x7b\x22max_depth\x22:[]\x7d, " ++
        "\x22\\u006dax_depth\x22:3,\x22x\x22:-1e5\x7d\t") = some options ∧
      options.Overlays [(some "x", .object [(some "max_depth", .array [])]),
        (some "max_depth", .ofNat 3), (some "x", .number "-1e5")]) ∧
    Options.load? "\x7b\x22max_depth\x22:1,\x22max_\\u0064epth\x22:1\x7d" = none ∧
    Options.load? (Options.store ⟨true, false, 18446744073709551615⟩) =
      some ⟨true, false, 18446744073709551615⟩ := by
  have listed : Options.Listed [(some "x", .object [(some "max_depth", .array [])]),
      (some "max_depth", .ofNat 3), (some "x", .number "-1e5")] := by
    refine ⟨by simp [Json.Named], ⟨by decide, by simp⟩, ⟨by decide, by simp⟩, ⟨by decide, ?_⟩⟩
    simpa using ⟨3, by decide, rfl⟩
  have twice : ¬Options.Listed [(some "max_depth", .ofNat 1), (some "max_depth", .ofNat 1)] := by
    intro listed
    have once := listed.maxDepth.once
    revert once
    decide
  refine ⟨?_, ?_, options_overlay_defaults.2 _ (by decide)⟩
  · refine (options_overlay_defaults.1 _ _ ?_).1 listed
    simp only [Json.Written, Json.pieces, Json.furtherMembers, List.cons_append, List.nil_append,
      String.toList_append, String.reduceToList]
    repeat first | exact .done | refine .blank rfl ?_ | refine .of_piece? rfl ?_
  · refine (options_overlay_defaults.1 _ _ ?_).2 twice
    simp only [Json.Written, Json.pieces, Json.furtherMembers, List.cons_append,
      String.reduceToList]
    repeat first | exact .done | refine .blank rfl ?_ | refine .of_piece? rfl ?_

end TemplateRecognizer
