import ApiScaffold.AllowList
import ApiScaffold.Proofs.DeclaredProperties

/-!
# Related names and what may be included

An entity is made from a mapping in which each kind of relationship stands with the names that are
related in this way, between the commas of a text or as the parts of a list. The names come in the
order of the kinds and not of the keys, while those of one kind keep their order and are not
compared with one another. What a query may include are the same names as camel words, each once.
-/
namespace ApiScaffold

open Text

/-! ## Kinds -/

namespace RelationshipKind

theorem ofText?_eq_some_iff {t : Text} {kind : RelationshipKind} :
    ofText? t = some kind ↔ t = kind.text := by
  constructor
  · intro h
    have hfound : decide (kind.text = t) = true :=
      List.find?_some (p := fun kind : RelationshipKind => decide (kind.text = t)) h
    exact (of_decide_eq_true hfound).symm
  · rintro rfl
    cases kind <;> rfl

theorem text_inj {kind other : RelationshipKind} : kind.text = other.text ↔ kind = other := by
  rw [← ofText?_eq_some_iff, ofText?_eq_some_iff.mpr rfl, Option.some.injEq]

end RelationshipKind

/-! ## Names as they are declared -/

namespace Relationships

/-- The names that a value gives, as they are written: the parts of a text between its commas, or
the parts of another value. -/
def writtenNames : Value → List Text
  | .text t => splitOn ',' t
  | .list items | .tuple items | .set items => items.map Value.display
  | .mapping pairs => pairs.map fun p => p.1.display
  | .bytes bs => bs.map fun b => Value.display (.int b.toNat)
  | _ => []

/-- The names that a value gives, without the blanks around them. -/
def namesIn (v : Value) : List Text := ((writtenNames v).map trim).filter (· ≠ [])

/-- The names that a mapping has under a kind. -/
def declaredUnder (kind : RelationshipKind) (pairs : Mapping) : List Text :=
  (pairs.filter (·.1.text? = some kind.text)).flatMap fun p => namesIn p.2

/-- A value has parts, and all of them can be written. -/
def HasNames (v : Value) : Prop :=
  ∃ parts, members v = .ok parts ∧ ∀ part ∈ parts, part.hasLong = false

/-- A key that is a kind, with a value that has names. -/
def WellFormed (p : Value × Value) : Prop :=
  (∃ kind : RelationshipKind, p.1 = .text kind.text) ∧ HasNames p.2

variable {pairs pairs' : Mapping} {declared rs : Relationships} {names : List Text}

theorem kindOf_eq_ok_iff {key : Value} {kind : RelationshipKind} :
    kindOf key = .ok kind ↔ key = .text kind.text := by
  have hkey : key.text?.bind RelationshipKind.ofText? = some kind ↔ key = .text kind.text := by
    cases key <;> simp [Value.text?, RelationshipKind.ofText?_eq_some_iff]
  rw [← hkey]
  unfold kindOf
  cases key.text?.bind RelationshipKind.ofText? with
  | some other => simp
  | none => simp [Checked.refuse, Except.bind_eq_ok_iff]

/-- A value that is no text gives the names of its parts. -/
theorem writtenNames_of_members {v : Value} {parts : List Value} (h : members v = .ok parts)
    (hv : ∀ t, v ≠ .text t) : writtenNames v = parts.map Value.display := by
  cases v with
  | text t => exact absurd rfl (hv t)
  | list items | tuple items | set items =>
    cases h
    rfl
  | mapping pairs | bytes bs =>
    cases h
    rw [List.map_map]
    rfl
  | _ => cases h

theorem targets_names_eq_ok_iff {v : Value} :
    (targetsOf v).bind Targets.names = .ok names ↔ HasNames v ∧ names = namesIn v := by
  by_cases htext : ∃ t, v = .text t
  · obtain ⟨t, rfl⟩ := htext
    have hnames : HasNames (.text t) := by
      refine ⟨_, rfl, fun part hpart => ?_⟩
      obtain ⟨c, -, rfl⟩ := List.mem_map.mp hpart
      rfl
    have hjoined : (targetsOf (.text t)).bind Targets.names = .ok (namesIn (.text t)) := rfl
    rw [hjoined, Except.ok.injEq]
    exact ⟨fun h => ⟨hnames, h.symm⟩, fun h => h.2.symm⟩
  · rw [not_exists] at htext
    have htargets : targetsOf v = ((members v).mapError Refusal.misuse).map Targets.parts := by
      cases v with
      | text t => exact absurd rfl (htext t)
      | _ => rfl
    unfold HasNames namesIn
    rw [htargets, Except.bind_eq_ok_iff]
    simp only [Except.map_eq_ok_iff, Except.mapError_eq_ok_iff]
    constructor
    · rintro ⟨_, ⟨parts, hparts, rfl⟩, hnames⟩
      obtain ⟨hshort, rfl⟩ := names_parts_eq_ok_iff.mp hnames
      rw [writtenNames_of_members hparts htext]
      exact ⟨⟨parts, hparts, hshort⟩, rfl⟩
    · rintro ⟨⟨parts, hparts, hshort⟩, rfl⟩
      rw [writtenNames_of_members hparts htext]
      exact ⟨_, ⟨parts, hparts, rfl⟩, names_parts_eq_ok_iff.mpr ⟨hshort, rfl⟩⟩

theorem ofPair_eq_ok_iff {p : Value × Value} {r : RelationshipKind × List Text} :
    ofPair p = .ok r ↔ p.1 = .text r.1.text ∧ HasNames p.2 ∧ r.2 = namesIn p.2 := by
  unfold ofPair named
  rw [Except.bind_eq_ok_iff, ← targets_names_eq_ok_iff]
  simp only [kindOf_eq_ok_iff, Except.bind_eq_ok_iff, Except.map_eq_ok_iff]
  constructor
  · rintro ⟨kind, hkind, targets, htargets, names, hnames, rfl⟩
    exact ⟨hkind, targets, htargets, hnames⟩
  · rintro ⟨hkind, targets, htargets, hnames⟩
    exact ⟨r.1, hkind, targets, htargets, r.2, hnames, rfl⟩

theorem under_cons (kind : RelationshipKind) (r : RelationshipKind × List Text)
    (rs : Relationships) :
    under kind (r :: rs) = if r.1 = kind then r.2 ++ under kind rs else under kind rs := by
  unfold under
  split_ifs with hkind <;> simp [hkind]

theorem declaredUnder_cons {key : RelationshipKind} {p : Value × Value}
    (hkey : p.1 = .text key.text) (kind : RelationshipKind) (pairs : Mapping) :
    declaredUnder kind (p :: pairs) =
      if key = kind then namesIn p.2 ++ declaredUnder kind pairs else declaredUnder kind pairs := by
  have hsame : p.1.text? = some kind.text ↔ key = kind := by
    rw [hkey, Value.text?, Option.some.injEq, RelationshipKind.text_inj]
  unfold declaredUnder
  split_ifs with hkind <;> simp [hsame, hkind]

/-- Pairs are read one by one, so what is found under a kind is what they declare under it. -/
theorem under_of_mapM (h : pairs.mapM ofPair = .ok declared) (kind : RelationshipKind) :
    declared.under kind = declaredUnder kind pairs := by
  induction Except.mapM_eq_ok_iff.mp h with
  | nil => rfl
  | @cons p r pairs declared hp hrest ih =>
    obtain ⟨hkey, -, hnames⟩ := ofPair_eq_ok_iff.mp hp
    rw [under_cons, declaredUnder_cons hkey, hnames, ih (Except.mapM_eq_ok_iff.mpr hrest)]

theorem check_mapping (pairs : Mapping) :
    check (.mapping pairs) = (pairs.mapM ofPair).map group := by
  cases pairs with
  | nil => rfl
  | cons p pairs => rfl

/-- A mapping is taken exactly when its keys are kinds and its values have names. -/
theorem exists_check_iff :
    (∃ rs, check (.mapping pairs) = .ok rs) ↔ ∀ p ∈ pairs, WellFormed p := by
  rw [check_mapping, Except.exists_map_eq_ok, Except.exists_mapM_eq_ok_iff]
  refine forall₂_congr fun p _ => ?_
  unfold WellFormed
  simp only [ofPair_eq_ok_iff]
  constructor
  · rintro ⟨r, hkey, hnames, -⟩
    exact ⟨⟨r.1, hkey⟩, hnames⟩
  · rintro ⟨⟨kind, hkey⟩, hnames⟩
    exact ⟨(kind, namesIn p.2), hkey, hnames, rfl⟩

theorem pairs_of_check (h : check (.mapping pairs) = .ok rs) : rs.pairs =
    RelationshipKind.all.flatMap fun kind =>
      (declaredUnder kind pairs).map fun name => (kind, name) := by
  rw [check_mapping] at h
  obtain ⟨declared, hdeclared, rfl⟩ := Except.map_eq_ok_iff.mp h
  simp only [pairs_group, under_of_mapM hdeclared]

/-- Whatever else is taken counts as absent. -/
theorem eq_nil_of_check {v : Value} (hv : ∀ pairs, v ≠ .mapping pairs) (h : check v = .ok rs) :
    rs = [] := by
  unfold check at h
  split_ifs at h
  · split at h
    · exact absurd rfl (hv _)
    · cases h
  · exact (Except.ok.inj h).symm

/-- The order of the keys does not matter. -/
theorem declaredUnder_perm (hall : ∀ p ∈ pairs, WellFormed p) (hkeys : pairs.Tidy)
    (h : pairs'.Perm pairs) (kind : RelationshipKind) :
    declaredUnder kind pairs' = declaredUnder kind pairs := by
  have hnamed : pairs.Named := hkeys.named fun p hp => by
    obtain ⟨⟨key, hkey⟩, -⟩ := hall p hp
    exact ⟨_, hkey⟩
  have htexts : ((pairs.map Prod.fst).map Value.text?).Nodup := by
    refine hnamed.nodup.map_on fun key hkey other hother hsame => ?_
    obtain ⟨p, hp, rfl⟩ := List.mem_map.mp hkey
    obtain ⟨q, hq, rfl⟩ := List.mem_map.mp hother
    obtain ⟨name, hname⟩ := hnamed.texts p hp
    obtain ⟨name', hname'⟩ := hnamed.texts q hq
    rw [hname, hname', Value.text?, Value.text?, Option.some.injEq] at hsame
    rw [hname, hname', hsame]
  rw [List.map_map] at htexts
  unfold declaredUnder
  exact congrArg _ (Draft.filter_key_perm h htexts (some kind.text))

end Relationships

/-! ## Entities -/

namespace Entity

/-- The pairs in the field of an entity for its relationships. -/
def relationshipsIn (data : Mapping) : Mapping :=
  (data.getText? "relationships").elim [] Draft.pairsIn

variable {data data' : Mapping} {e e' : Entity}

theorem related_of_check (h : check (.mapping data) = .ok e) :
    (∀ p ∈ relationshipsIn data, Relationships.WellFormed p) ∧
      e.related = RelationshipKind.all.flatMap fun kind =>
        (Relationships.declaredUnder kind (relationshipsIn data)).map fun name => (kind, name) := by
  have hnone : Relationships.pairs [] = RelationshipKind.all.flatMap fun kind =>
      (Relationships.declaredUnder kind []).map fun name => (kind, name) := rfl
  have hrs := relationships_of_check h
  unfold relationshipsIn related
  split at hrs
  · rename_i v hv
    rw [hv]
    cases v with
    | mapping pairs =>
      exact ⟨Relationships.exists_check_iff.mp ⟨_, hrs⟩, Relationships.pairs_of_check hrs⟩
    | _ =>
      rw [Relationships.eq_nil_of_check (by simp) hrs]
      exact ⟨List.forall_mem_nil _, hnone⟩
  · rename_i hv
    rw [hv, hrs]
    exact ⟨List.forall_mem_nil _, hnone⟩

end Entity

/-! ## Includes -/

namespace AllowList

theorem distinct_eq_eraseDups (texts : List Text) : distinct texts = texts.eraseDups := by
  cases texts with
  | nil => rfl
  | cons t rest =>
    have hother : (fun u : Text => decide (u ≠ t)) = fun u => !u == t := by
      funext u
      by_cases hu : u = t <;> simp [hu]
    rw [distinct, ← distinct_filter, List.eraseDups_cons, distinct_eq_eraseDups (rest.filter _),
      hother]
termination_by texts.length
decreasing_by
  have hlength := List.length_filter_le (fun u : Text => decide (u ≠ t)) rest
  rw [List.length_cons]
  omega

/-- The related names of an entity are the names in its field for relationships, in the order of
the kinds and in their own order below a kind, whatever the order of the keys is. They are included
as camel words, of which blank ones and all but the first of the same ones are left out. -/
theorem related_and_included {data : Mapping} {e : Entity}
    (h : Entity.check (.mapping data) = .ok e) :
    (∀ p ∈ Entity.relationshipsIn data, Relationships.WellFormed p) ∧
      e.related = (RelationshipKind.all.flatMap fun kind =>
        (Relationships.declaredUnder kind (Entity.relationshipsIn data)).map fun name =>
          (kind, name)) ∧
      (∀ data' e', Entity.check (.mapping data') = .ok e' → (Entity.relationshipsIn data).Tidy →
        (Entity.relationshipsIn data').Perm (Entity.relationshipsIn data) →
          e'.related = e.related) ∧
      includes (some e) = ((e.related.map fun r => Words.camel r.2).filter (· ≠ [])).eraseDups ∧
      (includes (some e)).Nodup := by
  obtain ⟨hall, hrelated⟩ := Entity.related_of_check h
  refine ⟨hall, hrelated, ?_, ?_, ?_⟩
  · intro data' e' h' hkeys hperm
    obtain ⟨-, hrelated'⟩ := Entity.related_of_check h'
    simp only [hrelated, hrelated', Relationships.declaredUnder_perm hall hkeys hperm]
  · exact distinct_eq_eraseDups _
  · exact nodup_distinct _

def relatedPost (pairs : Mapping) : Mapping :=
  [(.text "name", .text "Post"), (.text "relationships", .mapping pairs)]

def hasManyAuthors : Value × Value := (.text "hasMany", .text "blog_comments, , Author,Author")

def belongsToAuthor : Value × Value := (.text "belongsTo", .list [.text " author ", .text "-"])

/-- Names of two kinds are listed with their repetitions and included once, in either order. -/
theorem relatedPost_included : ∃ e,
    Entity.check (.mapping (relatedPost [hasManyAuthors, belongsToAuthor])) = .ok e ∧
      e.related = ([(.belongsTo, "author"), (.belongsTo, "-"), (.hasMany, "blog_comments"),
        (.hasMany, "Author"), (.hasMany, "Author")] : List (RelationshipKind × Text)) ∧
      includes (some e) = (["author", "blogComments"] : List Text) ∧
      ∀ e', Entity.check (.mapping (relatedPost [belongsToAuthor, hasManyAuthors])) = .ok e' →
        e'.related = e.related := by
  have hcheck : Entity.check (.mapping (relatedPost [hasManyAuthors, belongsToAuthor])) =
      .ok { name := "Post", relationships :=
        [(.belongsTo, ["author", "-"]), (.hasMany, ["blog_comments", "Author", "Author"])] } :=
    Except.bind_eq_ok_iff.mpr
      ⟨_, rfl, Draft.distinctColumns_eq_ok_iff.mpr ⟨rfl, List.nodup_nil⟩⟩
  have hkeys : Mapping.Tidy [hasManyAuthors, belongsToAuthor] := by
    unfold Mapping.Tidy
    decide
  obtain ⟨-, hrelated, hreordered, hincludes, -⟩ := related_and_included hcheck
  exact ⟨_, hcheck, hrelated.trans (by decide), hincludes.trans (by decide),
    fun e' he' => hreordered _ e' he' hkeys (List.Perm.swap _ _ _)⟩

end AllowList

end ApiScaffold
