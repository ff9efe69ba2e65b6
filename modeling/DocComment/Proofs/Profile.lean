import DocComment.Profile

/-!
# The values that profiles take

A profile is looked up by language and style, so each of its parts is one of a few values.  The
theorems about all profiles are proved from these lists.
-/

namespace DocComment.Profile

/-- There are three frames of tag tables. -/
theorem delimiters_of {language : Language} {config : Config} {d : Delimiters}
    (h : (of language config).delimiters? = some d) :
    d = .javadoc ∨ d = .qt ∨ d = .yard := by
  have hstyle : config.commentStyle.delimiters = .javadoc ∨
      config.commentStyle.delimiters = .qt := by
    cases config.commentStyle with
    | javadoc => exact Or.inl rfl
    | qt => exact Or.inr rfl
  cases language with
  | cpp | objc =>
    obtain rfl := Option.some.inj h
    exact hstyle.imp_right Or.inl
  | ruby =>
    cases hruby : config.rubyStyle with
    | rdoc => simp [of, hruby, delimiters?] at h
    | yard =>
      simp only [of, hruby, delimiters?, Option.some.injEq] at h
      exact Or.inr (Or.inr h.symm)
  | rust | swift => cases h
  | javascript | typescript | php | java => exact Or.inl (Option.some.inj h).symm

/-- A description follows its name after a space or a dash. -/
theorem separator_of (language : Language) (config : Config) :
    (of language config).separator = " ".toList ∨
      (of language config).separator = " - ".toList := by
  cases language with
  | ruby =>
    left
    simp only [of]
    split <;> rfl
  | javascript | typescript => exact Or.inr rfl
  | php | java | cpp | objc | rust | swift => exact Or.inl rfl

/-- There are four ways of writing types. -/
theorem typeColumn_of (language : Language) (config : Config) :
    (of language config).typeColumn = .absent ∨
      (of language config).typeColumn = .bare ∨
      (of language config).typeColumn = .bracketed '{' '}' ∨
      (of language config).typeColumn = .bracketed '[' ']' := by
  cases language with
  | ruby =>
    simp only [of]
    split
    · exact Or.inl rfl
    · exact Or.inr (Or.inr (Or.inr rfl))
  | javascript | typescript => exact Or.inr (Or.inr (Or.inl rfl))
  | php => exact Or.inr (Or.inl rfl)
  | java | cpp | objc | rust | swift => exact Or.inl rfl

/-- A type is written as it is, or in braces or brackets. -/
theorem formatType_of (language : Language) (config : Config) :
    (∀ t, (of language config).formatType t = t) ∨
      (∀ t, (of language config).formatType t = '{' :: t ++ ['}']) ∨
      ∀ t, (of language config).formatType t = '[' :: t ++ [']'] := by
  unfold formatType
  rcases typeColumn_of language config with h | h | h | h <;> rw [h]
  · exact Or.inl fun _ => rfl
  · exact Or.inl fun _ => rfl
  · exact Or.inr (Or.inl fun _ => rfl)
  · exact Or.inr (Or.inr fun _ => rfl)

/-- The tag of a variable is an at sign and a word, where there is one. -/
theorem binding_of (language : Language) (config : Config) :
    (of language config).tags.binding = none ∨
      (of language config).tags.binding = some "@type".toList ∨
      (of language config).tags.binding = some "@var".toList := by
  cases language with
  | ruby =>
    left
    simp only [of]
    split <;> rfl
  | javascript | typescript => exact Or.inr (Or.inl rfl)
  | php | cpp | objc => exact Or.inr (Or.inr rfl)
  | java | rust | swift => exact Or.inl rfl

end DocComment.Profile
