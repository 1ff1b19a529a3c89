import RuleFeed.Proofs.Feed.Listener
import RuleFeed.Proofs.Json.Ending
import RuleFeed.Proofs.Record.Batch

/-!
Documents that are cut short, and documents with something behind them. Behind an accepted document
only white space is passed over; hence no accepted document begins another one, and what is left of
a document that is cut short is refused wherever the cut is. A refused text leaves an engine alone.
-/
namespace RuleFeed

open Json

namespace Report

variable {c : Category} {text : String} {report : Report c}

/-- What stands behind an accepted document decides alone what becomes of the text. -/
theorem ofDocument_append (accepted : ofDocument c text = .ok report) (behind : String) :
    ofDocument c (text ++ behind) =
      if Blank behind.toList then .ok report else .error ⟨c, .malformed⟩ := by
  obtain ⟨e, read, rfl⟩ := ofDocument_eq_ok_iff.mp accepted
  have longer := Shape.readDocument_append read behind
  split
  case isTrue blank =>
    rw [if_pos blank] at longer
    exact ofDocument_eq_ok_iff.mpr ⟨e, longer, rfl⟩
  case isFalse ink =>
    rw [if_neg ink] at longer
    exact ofDocument_of_error longer

theorem ofDocument_append_of_blank (accepted : ofDocument c text = .ok report) {behind : String}
    (blank : Blank behind.toList) : ofDocument c (text ++ behind) = .ok report := by
  rw [ofDocument_append accepted, if_pos blank]

theorem ofDocument_append_of_ink (accepted : ofDocument c text = .ok report) {behind : String}
    (ink : ¬Blank behind.toList) :
    ofDocument c (text ++ behind) = .error ⟨c, .malformed⟩ := by
  rw [ofDocument_append accepted, if_neg ink]

/-- If what is left were accepted, what was cut off would stand behind an accepted document. -/
theorem exists_ofDocument_of_cut (accepted : ofDocument c text = .ok report) {left rest : String}
    (whole : left ++ rest = text) (ink : ¬Blank rest.toList) :
    ∃ fault, ofDocument c left = .error ⟨c, fault⟩ := by
  refine exists_ofDocument_eq_error ?_
  rintro ⟨shorter, accepted_left⟩
  have refused := ofDocument_append_of_ink accepted_left ink
  rw [whole, accepted] at refused
  cases refused

/-- A text that is more than a document, or less, is refused and leaves every engine as it was;
white space behind a document says nothing. -/
theorem only_whole_accepted (c : Category) (text : String) (report : Report c)
    (accepted : ofDocument c text = .ok report) :
    (∀ behind : String,
      ((∃ r, ofDocument c (text ++ behind) = .ok r) ↔ Blank behind.toList) ∧
        (Blank behind.toList → ofDocument c (text ++ behind) = .ok report)) ∧
    (∀ left rest : String, left ++ rest = text → ¬Blank rest.toList →
      ∃ fault, ofDocument c left = .error ⟨c, fault⟩) ∧
    ∀ e : Engine,
      (∀ behind : String, ¬Blank behind.toList → e.apply c (text ++ behind) = (.decodeFailed, e)) ∧
      ∀ left rest : String, left ++ rest = text → ¬Blank rest.toList →
        e.apply c left = (.decodeFailed, e) := by
  refine ⟨fun behind => ⟨⟨?_, ?_⟩, ofDocument_append_of_blank accepted⟩, ?_, fun e => ⟨?_, ?_⟩⟩
  · rintro ⟨r, longer⟩
    refine Decidable.byContradiction fun ink => ?_
    rw [ofDocument_append_of_ink accepted ink] at longer
    cases longer
  · exact fun blank => ⟨report, ofDocument_append_of_blank accepted blank⟩
  · exact fun left rest whole ink => exists_ofDocument_of_cut accepted whole ink
  · exact fun behind ink => Engine.apply_of_error (ofDocument_append_of_ink accepted ink)
  · intro left rest whole ink
    obtain ⟨fault, refused⟩ := exists_ofDocument_of_cut accepted whole ink
    exact Engine.apply_of_error refused

/-- A cut behind the record, and a bracket too many, for an engine that has the document. -/
theorem only_whole_accepted_flow :
    let text := "\x7b\"Data\":[\x7b\"x\":[\x7b\x7d],\"id\":7\x7d]\x7d"
    let left := "\x7b\"Data\":[\x7b\"x\":[\x7b\x7d],\"id\":7\x7d"
    let e := (Engine.empty.apply .flow text).2
    e.sets.flow = [{ FlowRule.blank with id := 7 }] ∧
      ofDocument .flow (text ++ "\n ") = .ok ⟨[{ FlowRule.blank with id := 7 }], []⟩ ∧
      e.apply .flow left = (.decodeFailed, e) ∧
      e.apply .flow (text ++ "\x7d") = (.decodeFailed, e) := by
  intro text left e
  have accepted : ofDocument .flow text = .ok ⟨[{ FlowRule.blank with id := 7 }], []⟩ := by
    have parts : (ofDocument .flow text).toOption.map
        (fun r => ((r.accepted : List FlowRule), r.dropped)) =
          some ([{ FlowRule.blank with id := 7 }], []) := by decide +kernel
    obtain ⟨⟨rules, dropped⟩, read, same⟩ := Option.map_eq_some_iff.mp parts
    cases same
    exact (toOption_eq_some_iff _ _).mp read
  obtain ⟨padded, -, refused⟩ := only_whole_accepted .flow text _ accepted
  refine ⟨by decide +kernel, (padded "\n ").2 (by decide), ?_, ?_⟩
  · exact (refused e).2 left "]\x7d" (by decide) (by decide)
  · exact (refused e).1 "\x7d" (by decide)

end Report
end RuleFeed
