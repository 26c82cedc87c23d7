import Gazette.Blog.Record
import Gazette.Proofs.Json.Form
import Gazette.Proofs.Time.Rfc3339

/-!
# Records of the blog and their JSON forms

Authors, new posts and posts are read back from their JSON forms, as values and as texts, and the
forms are loose (`records_read_back`).  A post keeps its date, whatever the offset it is written
with, unless the date is a leap second that is not the last second of a minute: the text of such a
date is that of the second after it.
-/

namespace Gazette

namespace Category

theorem isWord_optionalJson (c : Option Category) : (optionalJson c).IsWord := by
  cases c with
  | none => exact .null
  | some c => exact .string c.name

@[simp]
theorem optional?_optionalJson (c : Option Category) :
    (optionalJson c).optional? ofJson? = some c := by
  cases c with
  | none => rfl
  | some c => simp [optionalJson, toJson, Json.optional?, ofJson?]

end Category

namespace Author

/-- The form of authors in JSON. -/
def form : Json.Form Author := ⟨memberNames, ["twitterHandle"], toJson, ofJson?⟩

theorem isLoose_form : form.IsLoose := Json.Form.UsesParts.isLoose ⟨_, fun _ => rfl⟩

theorem readsAs_self (a : Author) : form.ReadsAs a a := by
  have hparts : a.toJson.parts? memberNames =
      some [.string a.id, .string a.name, .ofString? a.twitterHandle] := rfl
  refine Json.Form.readsAs rfl ?_ ?_
  · simp only [List.forall_mem_cons]
    exact ⟨.string _, .string _, Json.isWord_ofString? _, nofun⟩
  · show ofJson? a.toJson = some a
    rw [ofJson?, hparts]
    simp [Json.string?]

end Author

namespace NewPost

/-- The form of new posts in JSON. -/
def form : Json.Form NewPost := ⟨memberNames, ["summary", "category"], toJson, ofJson?⟩

theorem isLoose_form : form.IsLoose := Json.Form.UsesParts.isLoose ⟨_, fun _ => rfl⟩

theorem readsAs_self (n : NewPost) : form.ReadsAs n n := by
  have hparts : n.toJson.parts? memberNames =
      some [.string n.id, .string n.title, .string n.content, .ofString? n.summary,
        Category.optionalJson n.category, .string n.author] := rfl
  refine Json.Form.readsAs rfl ?_ ?_
  · simp only [List.forall_mem_cons]
    exact ⟨.string _, .string _, .string _, Json.isWord_ofString? _,
      Category.isWord_optionalJson _, .string _, nofun⟩
  · show ofJson? n.toJson = some n
    rw [ofJson?, hparts]
    simp [Json.string?]

end NewPost

namespace Post

/-- The form of posts in JSON. -/
def form : Json.Form Post := ⟨memberNames, ["category"], toJson, ofJson?⟩

theorem isLoose_form : form.IsLoose := Json.Form.UsesParts.isLoose ⟨_, fun _ => rfl⟩

/-- The form of a post with some text for its date. -/
def toJsonDated (p : Post) (date : String) : Json :=
  .object [("id", .string p.id), ("author", .string p.author),
    ("category", Category.optionalJson p.category), ("content", .string p.content),
    ("date", .string date), ("summary", .string p.summary), ("title", .string p.title)]

theorem ofJson?_toJsonDated {p : Post} {source : String} {date : Instant}
    (h : Rfc3339.ofText? source = some date) :
    ofJson? (p.toJsonDated source) = some { p with date := date } := by
  have hparts : (p.toJsonDated source).parts? memberNames =
      some [.string p.id, .string p.author, Category.optionalJson p.category, .string p.content,
        .string source, .string p.summary, .string p.title] := rfl
  rw [ofJson?, hparts]
  simp [Json.string?, h]

theorem ofJson?_toJson {p : Post} (h : p.date.IsDate) :
    ofJson? p.toJson = some { p with date := p.date.written } :=
  ofJson?_toJsonDated (Rfc3339.ofText?_text h)

theorem readsAs_written {p : Post} (h : p.date.IsDate) :
    form.ReadsAs p { p with date := p.date.written } := by
  refine Json.Form.readsAs rfl ?_ (ofJson?_toJson h)
  simp only [List.forall_mem_cons]
  exact ⟨.string _, .string _, Category.isWord_optionalJson _, .string _, .string _, .string _,
    .string _, nofun⟩

theorem readsAlike_textAt {p : Post} {minutes : Int} (h : p.date.IsDate)
    (hminutes : minutes.natAbs < 1440)
    (hlocal : Rfc3339.isInRange ⟨p.date.seconds + 60 * minutes, p.date.nanos⟩) :
    form.ReadsAlike (p.toJsonDated (Rfc3339.textAt minutes p.date)) p.toJson := by
  have hsame : ofJson? (p.toJsonDated (Rfc3339.textAt minutes p.date)) = ofJson? p.toJson := by
    rw [ofJson?_toJson h, ofJson?_toJsonDated (Rfc3339.ofText?_textAt h hminutes hlocal)]
  exact ⟨hsame, congrArg _ hsame⟩

end Post

/-- Records are read back from their JSON forms, in which the order of the members, further members
and missing optional ones do not matter, nor the offset of a date.  The one exception is the date
of a post in a leap second that is not the last second of a minute. -/
theorem records_read_back :
    (∀ a : Author, Author.form.ReadsAs a a) ∧ (∀ n : NewPost, NewPost.form.ReadsAs n n) ∧
    (∀ p : Post, p.date.IsDate → (p.date.isLeap → p.date.seconds % 60 = 59) →
      Post.form.ReadsAs p p) ∧
    (∀ p : Post, p.date.IsDate → p.date.isLeap → p.date.seconds % 60 ≠ 59 →
      Post.form.ReadsAs p
        { p with date := ⟨p.date.seconds + 1, p.date.nanos - Instant.nanosPerSecond⟩ }) ∧
    (∀ (p : Post) (minutes : Int), p.date.IsDate → minutes.natAbs < 1440 →
      Rfc3339.isInRange ⟨p.date.seconds + 60 * minutes, p.date.nanos⟩ →
      Post.form.ReadsAlike (p.toJsonDated (Rfc3339.textAt minutes p.date)) p.toJson) ∧
    Author.form.IsLoose ∧ NewPost.form.IsLoose ∧ Post.form.IsLoose := by
  refine ⟨Author.readsAs_self, NewPost.readsAs_self, ?_, ?_, ?_, Author.isLoose_form,
    NewPost.isLoose_form, Post.isLoose_form⟩
  · intro p hdate hlast
    have hread := Post.readsAs_written hdate
    rwa [Instant.written_of_last hlast] at hread
  · intro p hdate hleap hlast
    have hread := Post.readsAs_written hdate
    rwa [Instant.written_of_not_last hleap hlast] at hread
  · exact fun p minutes => Post.readsAlike_textAt

/-- A post with a date. -/
def Post.dated (date : Instant) : Post where
  id := "1"
  author := "ada"
  category := some .release
  content := "Notes"
  date := date
  summary := ""
  title := "Version 1"

/-- A post of the leap second at the end of 2016, also read from the text of a clock that is two and
a half hours behind, a post of a leap second inside a minute, and an author whose members are
rearranged, with one that is unknown and without the handle. -/
theorem records_read_back_leap_second :
    Post.form.ReadsAs (.dated ⟨1483228799, 1500000000⟩) (.dated ⟨1483228799, 1500000000⟩) ∧
    Post.form.ReadsAs (.dated ⟨4, 1001000000⟩) (.dated ⟨5, 1000000⟩) ∧
    Post.form.ReadsAlike
      ((Post.dated ⟨1483228799, 1500000000⟩).toJsonDated
        (Rfc3339.textAt (-150) ⟨1483228799, 1500000000⟩))
      (Post.dated ⟨1483228799, 1500000000⟩).toJson ∧
    Author.form.ReadsAlike
      (.object [("name", .string "Ada"), ("age", .int 36), ("id", .string "ada")])
      (.object [("id", .string "ada"), ("name", .string "Ada"), ("twitterHandle", .null)]) := by
  obtain ⟨-, -, hlast, hinside, hoffset, hauthor, -, -⟩ := records_read_back
  have hdate : (Post.dated ⟨1483228799, 1500000000⟩).date.IsDate := ⟨by decide, by decide⟩
  refine ⟨hlast _ hdate fun _ => by decide, hinside (.dated ⟨4, 1001000000⟩)
    ⟨by decide, by decide⟩ (by decide) (by decide), hoffset _ (-150) hdate (by decide) (by decide),
    hauthor _ _ ?_⟩
  have hfirst : Json.SayAlike Author.form.names Author.form.optional
      [("name", .string "Ada"), ("age", .int 36), ("id", .string "ada")]
      [("age", .int 36), ("id", .string "ada"), ("name", .string "Ada")] :=
    .reordered (.trans (.swap _ _ _) (.cons _ (.swap _ _ _))) (by decide)
  have hnull : Json.SayAlike Author.form.names Author.form.optional
      [("twitterHandle", .null), ("id", .string "ada"), ("name", .string "Ada")]
      [("id", .string "ada"), ("name", .string "Ada"), ("twitterHandle", .null)] :=
    .reordered (.trans (.swap _ _ _) (.cons _ (.swap _ _ _))) (by decide)
  have hknown : Json.SayAlike Author.form.names Author.form.optional
      [("age", .int 36), ("id", .string "ada"), ("name", .string "Ada")]
      [("id", .string "ada"), ("name", .string "Ada")] := .unknown (by decide) _
  have habsent : Json.SayAlike Author.form.names Author.form.optional
      [("twitterHandle", .null), ("id", .string "ada"), ("name", .string "Ada")]
      [("id", .string "ada"), ("name", .string "Ada")] := .absent (by decide) (by decide)
  exact hfirst.trans (hknown.trans (habsent.symm.trans hnull))

/-- A leap second inside a minute is a date, but a post of that date is not read back. -/
theorem not_read_back_inside_minute :
    (Post.dated ⟨4, 1001000000⟩).date.IsDate ∧
    Post.ofJson? (Post.dated ⟨4, 1001000000⟩).toJson ≠ some (.dated ⟨4, 1001000000⟩) := by
  have hdate : (Post.dated ⟨4, 1001000000⟩).date.IsDate := ⟨by decide, by decide⟩
  refine ⟨hdate, ?_⟩
  rw [Post.ofJson?_toJson hdate]
  decide

end Gazette
