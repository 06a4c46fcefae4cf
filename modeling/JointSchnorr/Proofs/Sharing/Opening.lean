import JointSchnorr.Proofs.Group.Residues
import JointSchnorr.Proofs.Sharing.Quorum
import JointSchnorr.Proofs.Transcript
import JointSchnorr.Sharing.Dealing

namespace JointSchnorr

variable {S : Suite} {P : S.Point} {b c : Bytes}

namespace Suite

theorem opens_iff : S.opens P b c = true ↔ S.commit P b = .ok c := by
  rw [opens]
  cases S.commit P b with
  | error e => simp
  | ok expected => simp

theorem opens_of_commitBlinded {tape rest : Bytes}
    (h : S.commitBlinded P tape = some (.ok (c, b), rest)) : S.opens P b c = true := by
  obtain ⟨blind, _, _, h⟩ := Sampler.bind_eq_some_iff.1 h
  obtain ⟨committed, _⟩ := Sampler.pure_eq_some_iff.1 h
  obtain ⟨_, committed, pair⟩ := map_eq_ok_iff.1 committed
  cases pair
  exact opens_iff.2 committed

end Suite

namespace Dealing

/-- Why a revealed key that does not open its commitment is refused: a point that could not have
been committed to is refused like any other point without an encoding. -/
def unopened (dealer : Position) (P : S.Point) : Error :=
  match S.encode P with
  | .ok _ => .keyOpening dealer
  | .error e => e

def openings (d : Dealing S) (keys : List S.Point) (blinds commitments : List Bytes) :
    List (Position × S.Point × Bytes × Bytes) :=
  d.positions.zip (keys.zip (blinds.zip commitments))

theorem outcome_checkOpening (dealer : Position) (P : S.Point) (b c : Bytes) :
    (checkOpening dealer P b c).outcome =
      settle [refuseIf (S.opens P b c = false) (unopened dealer P)] () := by
  have steps : (checkOpening dealer P b c).outcome = (do
      let opened ← S.commit P b
      if opened = c then .ok () else .error (.keyOpening dealer)) := by
    simp only [checkOpening, Logged.outcome_bind, Logged.outcome_lift, Logged.outcome_ite,
      Logged.outcome_emit, Logged.outcome_fail, Logged.outcome_pure]
    rfl
  rw [steps, Suite.opens, unopened, Suite.commit_eq]
  cases S.encode P with
  | error e => rfl
  | ok p =>
    change (if _ = c then _ else _) = settle [refuseIf ((_ == c) = false) _] ()
    rw [← ite_not]
    simp only [beq_eq_false_iff_ne]
    exact ite_error_eq_settle fun _ => rfl

theorem checkOpening_eq_ok_iff {dealer : Position} :
    (checkOpening dealer P b c).outcome = .ok () ↔ S.opens P b c = true := by
  rw [outcome_checkOpening, settle_eq_ok_iff]
  simp

variable {d : Dealing S} {keys : List S.Point} {blinds commitments : List Bytes}

theorem outcome_checkOpenings (d : Dealing S) (keys : List S.Point)
    (blinds commitments : List Bytes) :
    (d.checkOpenings keys blinds commitments).outcome =
      settle ([keys.length, blinds.length, commitments.length].map (wrongSize d.positions.length) ++
        [((d.openings keys blinds commitments).find? fun e =>
          S.opens e.2.1 e.2.2.1 e.2.2.2 = false).map fun e => unopened e.1 e.2.1]) () := by
  rw [checkOpenings, Logged.outcome_bind, Logged.outcome_lift, checkSizes_eq]
  apply settle_bind
  intro _
  simp only [Logged.outcome_forM, outcome_checkOpening]
  rw [← findSome?_refuseIf, ← forM_settle]
  rfl

theorem checkOpenings_eq_ok_iff :
    (d.checkOpenings keys blinds commitments).outcome = .ok () ↔
      (keys.length = d.positions.length ∧ blinds.length = d.positions.length ∧
        commitments.length = d.positions.length) ∧
      ∀ e ∈ d.openings keys blinds commitments, S.opens e.2.1 e.2.2.1 e.2.2.2 = true := by
  rw [outcome_checkOpenings, settle_eq_ok_iff]
  simp [wrongSize_eq_none_iff, and_assoc]

theorem checkOpenings_eq_ok {α : Type} {entries : List α} {key : α → S.Point}
    {blind published : α → Bytes} (length : entries.length = d.positions.length)
    (committed : ∀ a ∈ entries, S.commit (key a) (blind a) = .ok (published a)) :
    (d.checkOpenings (entries.map key) (entries.map blind) (entries.map published)).outcome =
      .ok () := by
  rw [checkOpenings_eq_ok_iff, openings, List.zip_map', List.zip_map']
  simp only [List.length_map]
  refine ⟨⟨length, length, length⟩, fun e he => ?_⟩
  obtain ⟨a, ha, revealed⟩ := List.mem_map.1 (List.of_mem_zip he).2
  rw [← revealed]
  exact Suite.opens_iff.2 (committed a ha)

theorem exists_encode_of_checkOpenings
    (h : (d.checkOpenings keys blinds commitments).outcome = .ok ()) {P : S.Point} (hP : P ∈ keys) :
    ∃ p, S.encode P = .ok p := by
  obtain ⟨⟨hk, hb, hc⟩, opens⟩ := checkOpenings_eq_ok_iff.1 h
  obtain ⟨j, hj, rfl⟩ := List.getElem_of_mem hP
  have entry : (d.openings keys blinds commitments)[j]? =
      some (d.positions[j], keys[j], blinds[j], commitments[j]) := by
    simp [openings, List.getElem?_zip_eq_some]
  have committed := opens _ (List.mem_of_getElem? entry)
  rw [Suite.opens_iff, Suite.commit_eq, map_eq_ok_iff] at committed
  obtain ⟨p, encoded, _⟩ := committed
  exact ⟨p, encoded⟩

/-- The first key that does not open its commitment is blamed on its dealer if it has an encoding.
What was committed to and then revealed as it is opens its commitment. -/
theorem checkOpenings_first_unopened (d : Dealing S) (keys : List S.Point)
    (blinds commitments : List Bytes) (hk : keys.length = d.positions.length)
    (hb : blinds.length = d.positions.length) (hc : commitments.length = d.positions.length) :
    ((d.checkOpenings keys blinds commitments).outcome = .ok () ↔
      ∀ e ∈ d.openings keys blinds commitments, S.opens e.2.1 e.2.2.1 e.2.2.2 = true) ∧
    (∀ e, (d.openings keys blinds commitments).find?
        (fun e => S.opens e.2.1 e.2.2.1 e.2.2.2 = false) = some e →
      (∀ p, S.encode e.2.1 = .ok p →
        (d.checkOpenings keys blinds commitments).outcome = .error (.keyOpening e.1)) ∧
      ∀ err, S.encode e.2.1 = .error err →
        (d.checkOpenings keys blinds commitments).outcome = .error err) ∧
    ∀ (P : S.Point) (tape rest b c : Bytes), S.commitBlinded P tape = some (.ok (c, b), rest) →
      S.opens P b c = true ∧ ∀ dealer, (checkOpening dealer P b c).outcome = .ok () := by
  refine ⟨checkOpenings_eq_ok_iff.trans (and_iff_right ⟨hk, hb, hc⟩), ?blamed, ?honest⟩
  case blamed =>
    intro e first
    have right {n : Nat} (h : n = d.positions.length) : wrongSize d.positions.length n = none :=
      wrongSize_eq_none_iff.2 h
    simp only [outcome_checkOpenings, List.map_cons, List.map_nil, right hk, right hb, right hc,
      List.cons_append, List.nil_append, settle_none, first, Option.map_some, settle_some, unopened]
    constructor
    · intro p encoded
      rw [encoded]
    · intro err refused
      rw [refused]
  case honest =>
    intro P tape rest b c committed
    have opens := Suite.opens_of_commitBlinded committed
    exact ⟨opens, fun dealer => checkOpening_eq_ok_iff.2 opens⟩

theorem checkOpenings_first_unopened_of_three :
    let G := Suite.seven.power
    let d : Dealing Suite.seven :=
      ⟨⟨3, 2, by decide, by decide⟩, ⟨1, by decide, G 1, rfl⟩, [2], [4, 0, 2]⟩
    let tape := List.replicate 32 7
    ∃ c, Suite.seven.commitBlinded (G 1) tape = some (.ok (c, tape), []) ∧
      (d.checkOpenings [G 1, G 3, G 3] [tape, tape, tape] [c, c, c]).outcome =
        .error (.keyOpening 0) := by
  intro G d tape
  let c := Suite.seven.toCommitment (Residue.encode (G 1) ++ tape)
  have committed : Suite.seven.commitBlinded (G 1) tape = some (.ok (c, tape), []) := rfl
  have other : Suite.seven.opens (G 3) tape c = false := by decide +kernel
  obtain ⟨_, blamed, honest⟩ := checkOpenings_first_unopened d [G 1, G 3, G 3]
    [tape, tape, tape] [c, c, c] rfl rfl rfl
  obtain ⟨own, _⟩ := honest (G 1) tape [] tape c committed
  refine ⟨c, committed, (blamed (0, G 3, tape, c) ?_).1 _ rfl⟩
  change List.find? _ [(4, G 1, tape, c), (0, G 3, tape, c), (2, G 3, tape, c)] = _
  rw [List.find?_cons_of_neg (by simp [own]), List.find?_cons_of_pos (by simp [other])]

theorem checkOpenings_of_identity :
    let G := Suite.seven.power
    let d : Dealing Suite.seven :=
      ⟨⟨1, 1, by decide, by decide⟩, ⟨1, by decide, G 1, rfl⟩, [], [0]⟩
    let b := List.replicate 32 5
    Suite.seven.opens 0 b b = false ∧
      (d.checkOpenings [0] [b] [b]).outcome = .error (.malformed .identity) ∧
      (d.checkOpenings [0] [b] [b]).outcome ≠ .error (.keyOpening 0) := by
  intro G d b
  have outcome : (d.checkOpenings [0] [b] [b]).outcome = .error (.malformed .identity) := rfl
  refine ⟨rfl, outcome, ?_⟩
  rw [outcome]
  intro same
  cases same

end Dealing

end JointSchnorr
