import Gazette.Blog.Record
import Gazette.Proofs.Text.Boundaries

/-!
# Summaries of new posts

A post that is published without a summary gets the first hundred clusters of its content as one
(`publish_summary`).  As the content is cut at a boundary, the summary has these clusters on its
own, too, and is its own summary.
-/

namespace Gazette.NewPost

open Text.Grapheme

theorem toList_defaultSummary (content : String) :
    (defaultSummary content).toList = ((clusters content.toList).take 100).flatten :=
  String.toList_ofList

/-- What is a summary already is not made shorter. -/
theorem defaultSummary_of_length_le {content : String}
    (h : (clusters content.toList).length ≤ 100) : defaultSummary content = content := by
  rw [← String.toList_inj, toList_defaultSummary, List.take_of_length_le h, flatten_clusters]

theorem isSegmentation_defaultSummary (content : String) :
    IsSegmentation ((clusters content.toList).take 100) (defaultSummary content).toList := by
  rw [toList_defaultSummary]
  exact (isSegmentation_clusters content.toList).take 100

theorem defaultSummary_defaultSummary (content : String) :
    defaultSummary (defaultSummary content) = defaultSummary content := by
  refine defaultSummary_of_length_le ?_
  rw [← isSegmentation_iff.1 (isSegmentation_defaultSummary content)]
  exact List.length_take_le _ _

/-- The summary of a post is the given one, also if it is empty, and else consists of the first
hundred clusters of the content, or of all if there are fewer: it is a beginning of the content up
to a boundary, these clusters are its own segmentation, and as a content it is its own summary.
Nothing else of the post depends on the summary. -/
theorem publish_summary (n : NewPost) (date : Instant) :
    (n.summary = none → ∃ pieces,
      (∀ others, IsSegmentation others n.content.toList ↔ others = pieces) ∧
      (∃ rest, (n.publish date).summary.toList ++ rest = n.content.toList ∧
        IsBoundary (n.publish date).summary.toList rest) ∧
      (pieces.length ≤ 100 → (n.publish date).summary = n.content) ∧
      (∀ own, IsSegmentation own (n.publish date).summary.toList ↔ own = pieces.take 100) ∧
      (100 < pieces.length → (pieces.take 100).length = 100) ∧
      ∀ (other : NewPost) (later : Instant), other.summary = none →
        other.content = (n.publish date).summary →
        (other.publish later).summary = (n.publish date).summary) ∧
    (∀ summary, n.summary = some summary → (n.publish date).summary = summary) ∧
    ∀ given summary, { n.publish date with summary := summary } =
      { ({ n with summary := given } : NewPost).publish date with summary := summary } := by
  refine ⟨fun hnone => ?_, fun summary hsummary => ?_, fun given summary => rfl⟩
  · have hpublish : (n.publish date).summary = defaultSummary n.content := by
      rw [publish, hnone]
      rfl
    rw [hpublish]
    refine ⟨clusters n.content.toList, fun others => isSegmentation_iff, ?_,
      defaultSummary_of_length_le, fun own => ?_, fun hlong => ?_, fun other later hother heq => ?_⟩
    · have hsplit : (defaultSummary n.content).toList ++
          ((clusters n.content.toList).drop 100).flatten = n.content.toList := by
        rw [toList_defaultSummary, ← List.flatten_append, List.take_append_drop, flatten_clusters]
      refine ⟨_, hsplit, ?_⟩
      exact ((isSegmentation_clusters _).isBoundary_iff _ _ hsplit).2
        ⟨100, toList_defaultSummary n.content⟩
    · rw [isSegmentation_iff, isSegmentation_iff.1 (isSegmentation_defaultSummary n.content)]
    · exact List.length_take_of_le hlong.le
    · rw [publish, hother, heq]
      exact defaultSummary_defaultSummary n.content
  · rw [publish, hsummary]
    rfl

/-- A number of flags, each of which is made from two characters. -/
def flags (n : Nat) : List Char :=
  (List.replicate n [Char.ofNat 0x1F1E9, Char.ofNat 0x1F1EA]).flatten

theorem length_clusters_flags : (clusters (flags 101)).length = 101 := by decide +kernel

/-- The summary of a content of 101 flags consists of a hundred flags, unless there is an empty
one. -/
theorem publish_summary_flags :
    let n : NewPost := ⟨"1", "Flags", .ofList (flags 101), none, none, "a"⟩
    (∃ own, IsSegmentation own (n.publish .epoch).summary.toList ∧ own.length = 100) ∧
      (({ n with summary := some "" } : NewPost).publish .epoch).summary = "" := by
  intro n
  obtain ⟨pieces, hpieces, -, -, hown, hlength, -⟩ := (publish_summary n .epoch).1 rfl
  have hlong : 100 < pieces.length := by
    rw [← (hpieces _).1 (isSegmentation_clusters _), show n.content.toList = flags 101 from
      String.toList_ofList, length_clusters_flags]
    decide
  obtain ⟨-, hgiven, -⟩ := publish_summary { n with summary := some "" } .epoch
  exact ⟨⟨_, (hown _).2 rfl, hlength hlong⟩, hgiven "" rfl⟩

end Gazette.NewPost
