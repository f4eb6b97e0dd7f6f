import Mathlib.Data.List.Basic
import LocalVoice.AsrWorker.Requests

/-! UTF-8 in the texts of `qwen3_asr_worker.cpp`. An ASCII byte ends a character, so what stands behind a
    tag is UTF-8 if the text is: stripping the language tag cuts no character. -/

namespace LocalVoice.AsrWorker

/-! ### Characters -/

theorem within_high {lo hi b : UInt8} (hlo : 0x80 ≤ lo) (h : within lo hi b = true) : ¬ b < 0x80 := by
  have hle := of_decide_eq_true (Bool.and_eq_true_iff.1 h).1
  exact fun hlt => UInt8.lt_irrefl _ (UInt8.lt_of_lt_of_le hlt (UInt8.le_trans hlo hle))

theorem utf8_ascii_cons {a : UInt8} (ha : a < 0x80) (rest : Bytes) : utf8 (a :: rest) = utf8 rest := by
  rw [utf8.eq_def]
  exact if_pos ha

/-- The first character of a text: one ASCII byte, or bytes of which none is ASCII. -/
theorem utf8_cases {s : Bytes} (h : utf8 s = true) : s = [] ∨ ∃ c rest, s = c ++ rest ∧ c ≠ [] ∧
    utf8 rest = true ∧ ((∃ a, c = [a]) ∨ ∀ b ∈ c, ¬ b < 0x80) ∧
    ∀ t, utf8 t = true → utf8 (c ++ t) = true := by
  cases s with
  | nil => exact .inl rfl
  | cons a rest =>
    refine .inr ?_
    rw [utf8.eq_def] at h
    dsimp only at h
    split at h
    · next ha =>
      refine ⟨[a], rest, rfl, List.cons_ne_nil _ _, h, .inl ⟨a, rfl⟩, fun t ht => ?_⟩
      exact (utf8_ascii_cons ha t).trans ht
    · next ha =>
      split at h
      · cases h
      · next b rest =>
        split at h
        · next h2 =>
          obtain ⟨hb, hrest⟩ := Bool.and_eq_true_iff.1 h
          refine ⟨[a, b], rest, rfl, List.cons_ne_nil _ _, hrest, .inr ?_, fun t ht => ?_⟩
          · simp only [List.mem_cons, List.not_mem_nil, or_false, forall_eq_or_imp, forall_eq]
            exact ⟨ha, within_high (by decide) hb⟩
          · rw [List.cons_append, List.cons_append, List.nil_append, utf8.eq_def]
            dsimp only
            rw [if_neg ha, if_pos h2, hb, ht]
            rfl
        · next h2 =>
          split at h
          · cases h
          · next c rest =>
            split at h
            · next h3 =>
              obtain ⟨hbc, hrest⟩ := Bool.and_eq_true_iff.1 h
              obtain ⟨hb, hc⟩ := Bool.and_eq_true_iff.1 hbc
              refine ⟨[a, b, c], rest, rfl, List.cons_ne_nil _ _, hrest, .inr ?_, fun t ht => ?_⟩
              · simp only [List.mem_cons, List.not_mem_nil, or_false, forall_eq_or_imp, forall_eq]
                exact ⟨ha, within_high (by split <;> decide) hb, within_high (by decide) hc⟩
              · rw [List.cons_append, List.cons_append, List.cons_append, List.nil_append, utf8.eq_def]
                dsimp only
                rw [if_neg ha, if_neg h2, if_pos h3, hb, hc, ht]
                rfl
            · next h3 =>
              split at h
              · cases h
              · next d rest =>
                obtain ⟨habcd, hrest⟩ := Bool.and_eq_true_iff.1 h
                obtain ⟨habc, hd⟩ := Bool.and_eq_true_iff.1 habcd
                obtain ⟨hab, hc⟩ := Bool.and_eq_true_iff.1 habc
                obtain ⟨h4, hb⟩ := Bool.and_eq_true_iff.1 hab
                refine ⟨[a, b, c, d], rest, rfl, List.cons_ne_nil _ _, hrest, .inr ?_, fun t ht => ?_⟩
                · simp only [List.mem_cons, List.not_mem_nil, or_false, forall_eq_or_imp, forall_eq]
                  exact ⟨ha, within_high (by split <;> decide) hb, within_high (by decide) hc,
                    within_high (by decide) hd⟩
                · rw [List.cons_append, List.cons_append, List.cons_append, List.cons_append,
                    List.nil_append, utf8.eq_def]
                  dsimp only
                  rw [if_neg ha, if_neg h2, if_neg h3, h4, hb, hc, hd, ht]
                  rfl

theorem utf8_append {s t : Bytes} (hs : utf8 s = true) (ht : utf8 t = true) : utf8 (s ++ t) = true := by
  generalize hn : s.length = n
  induction n using Nat.strongRecOn generalizing s with
  | ind n ih =>
    rcases utf8_cases hs with rfl | ⟨c, rest, rfl, hne, hrest, -, hput⟩
    · exact ht
    · rw [List.append_assoc]
      refine hput _ (ih rest.length ?_ hrest rfl)
      have hpos := List.length_pos_iff.2 hne
      rw [List.length_append] at hn
      omega

/-- An ASCII byte ends a character. -/
theorem utf8_behind {a : UInt8} (ha : a < 0x80) {pre t : Bytes} (h : utf8 (pre ++ a :: t) = true) :
    utf8 t = true := by
  generalize hn : pre.length = n
  induction n using Nat.strongRecOn generalizing pre with
  | ind n ih =>
    rcases utf8_cases h with hnil | ⟨c, rest, heq, hne, hrest, hc, -⟩
    · exact absurd hnil (List.append_ne_nil_of_right_ne_nil _ (List.cons_ne_nil _ _))
    · rcases List.append_eq_append_iff.1 heq with ⟨u, rfl, hu⟩ | ⟨u, rfl, hu⟩
      · cases u with
        | nil =>
          rw [← show a :: t = rest from hu] at hrest
          exact (utf8_ascii_cons ha t).symm.trans hrest
        | cons b u =>
          obtain ⟨rfl, rfl⟩ := List.cons.inj hu
          rcases hc with ⟨b, hb⟩ | hhigh
          · -- the byte is the character
            cases pre with
            | nil =>
              obtain rfl := (List.cons.inj hb).2
              exact hrest
            | cons p pre => exact absurd (List.cons.inj hb).2 (by simp)
          · exact absurd ha (hhigh a (List.mem_append_right _ List.mem_cons_self))
      · have hpos := List.length_pos_iff.2 hne
        rw [List.length_append] at hn
        rw [hu] at hrest
        exact ih u.length (by omega) hrest rfl

/-! ### Tags -/

/-- What stands behind an ASCII text. -/
theorem utf8_behind_text {pre lit t : Bytes} (hlit : ∀ b ∈ lit, b < 0x80) (hne : lit ≠ [])
    (h : utf8 (pre ++ (lit ++ t)) = true) : utf8 t = true := by
  obtain ⟨front, a, rfl⟩ := (List.eq_nil_or_concat lit).resolve_left hne
  refine @utf8_behind a (hlit a (by simp)) (pre ++ front) t ?_
  rw [List.concat_eq_append] at h
  simpa using h

theorem to_lower_ascii {b : UInt8} : to_lower b < 0x80 ↔ b < 0x80 := by
  unfold to_lower within
  grind

/-- A match is an ASCII text. -/
theorem utf8_behind_match {s lit : Bytes} {pos : ℕ} (hs : utf8 s = true) (hlit : ∀ b ∈ lit, b < 0x80)
    (hne : lit ≠ []) (h : asciiIEqualsAt s pos lit = true) : utf8 (s.drop (pos + lit.length)) = true := by
  obtain ⟨w, hw⟩ := List.isPrefixOf_iff_prefix.1 h
  obtain ⟨u, v, huv, hu, -⟩ := List.map_eq_append_iff.1 hw.symm
  have hlen : u.length = lit.length := by
    rw [← List.length_map to_lower, hu, List.length_map]
  have hdrop : s.drop (pos + lit.length) = v := by
    rw [← List.drop_drop, huv, ← hlen, List.drop_left]
  have hascii : ∀ b ∈ u, b < 0x80 := by
    intro b hb
    have hmem : to_lower b ∈ lit.map to_lower := hu ▸ List.mem_map_of_mem hb
    obtain ⟨l, hl, heq⟩ := List.mem_map.1 hmem
    exact to_lower_ascii.1 (heq ▸ to_lower_ascii.2 (hlit l hl))
  rw [hdrop]
  refine @utf8_behind_text (s.take pos) u v hascii ?_ ?_
  · exact fun hnil => hne (List.length_eq_zero_iff.1 (by rw [← hlen, hnil]; rfl))
  · rw [← huv, List.take_append_drop]
    exact hs

theorem utf8_drop_blank {s : Bytes} (hs : utf8 s = true) : utf8 (s.dropWhile is_blank) = true := by
  induction s with
  | nil => exact hs
  | cons b rest ih =>
    rw [List.dropWhile_cons]
    split
    · next hb =>
      have hascii : b < 0x80 := by
        unfold is_blank at hb
        grind
      exact ih ((utf8_ascii_cons hascii rest).symm.trans hs)
    · exact hs

/-- A language that is found is one of the names. -/
theorem known_language {s : Bytes} {pos : ℕ} (h : knownAsrLanguagePrefixLen s pos ≠ 0) :
    ∃ lang ∈ kLanguages, knownAsrLanguagePrefixLen s pos = (ascii lang).length ∧
      asciiIEqualsAt s pos (ascii lang) = true := by
  have hfold : ∀ (langs : List String) (best : ℕ), (∀ lang ∈ langs, lang ∈ kLanguages) →
      (best = 0 ∨ ∃ lang ∈ kLanguages, best = (ascii lang).length ∧
        asciiIEqualsAt s pos (ascii lang) = true) →
      let n := langs.foldl (fun best lang =>
        if best < (ascii lang).length && asciiIEqualsAt s pos (ascii lang) then (ascii lang).length
        else best) best
      n = 0 ∨ ∃ lang ∈ kLanguages, n = (ascii lang).length ∧ asciiIEqualsAt s pos (ascii lang) = true := by
    intro langs
    induction langs with
    | nil => exact fun best _ hbest => hbest
    | cons lang langs ih =>
      intro best hsub hbest
      refine ih _ (fun l hl => hsub l (List.mem_cons_of_mem _ hl)) ?_
      dsimp only
      split
      · next hmatch =>
        exact .inr ⟨lang, hsub lang List.mem_cons_self, rfl, (Bool.and_eq_true_iff.1 hmatch).2⟩
      · exact hbest
  exact (hfold kLanguages 0 (fun _ => id) (.inl rfl)).resolve_left h

theorem languages_ascii : ∀ lang ∈ kLanguages, ascii lang ≠ [] ∧ ∀ b ∈ ascii lang, b < 0x80 := by
  have hall : kLanguages.all
      (fun lang => !(ascii lang).isEmpty && (ascii lang).all fun b => b < 0x80) = true := by
    decide +kernel
  intro lang hlang
  have hboth := List.all_eq_true.1 hall lang hlang
  rw [Bool.and_eq_true, List.all_eq_true] at hboth
  exact ⟨fun hnil => by simp [hnil] at hboth, fun b hb => of_decide_eq_true (hboth.2 b hb)⟩

theorem utf8_strip {s : Bytes} (hs : utf8 s = true) : utf8 (stripLangTag s) = true := by
  have htag : ∀ b ∈ kTag, b < 0x80 := by decide +kernel
  have htext : ∀ b ∈ kAsrTextTag, b < 0x80 := by decide +kernel
  rw [stripLangTag]
  split
  · exact hs
  · split
    · next htag' => exact utf8_behind_match hs htext (by decide +kernel) htag'
    · dsimp only
      split
      · exact hs
      · next hlen =>
        obtain ⟨lang, hlang, heq, hmatch⟩ := known_language hlen
        obtain ⟨hne, hascii⟩ := languages_ascii lang hlang
        have hrest := utf8_drop_blank (utf8_behind_match hs hascii hne hmatch)
        rw [← heq] at hrest
        split
        · next hafter =>
          have hdrop := utf8_behind_match hrest htext (by decide +kernel) hafter
          rwa [Nat.zero_add] at hdrop
        · exact hrest

theorem after_spec {tag s t : Bytes} (h : after tag s = some t) : ∃ pre, s = pre ++ (tag ++ t) := by
  induction s with
  | nil =>
    rw [after] at h
    split at h
    · next hnil =>
      obtain rfl := Option.some.inj h
      exact ⟨[], by rw [hnil]; rfl⟩
    · cases h
  | cons b rest ih =>
    rw [after] at h
    split at h
    · next hprefix =>
      obtain ⟨u, hu⟩ := List.isPrefixOf_iff_prefix.1 hprefix
      rw [← hu, List.drop_left] at h
      obtain rfl := Option.some.inj h
      exact ⟨[], hu.symm⟩
    · obtain ⟨pre, rfl⟩ := ih h
      exact ⟨b :: pre, rfl⟩

theorem utf8_parse {s : Bytes} (hs : utf8 s = true) : utf8 (parseAsrText s) = true := by
  rw [parseAsrText]
  cases hafter : after kAsrTextTag s with
  | none => exact utf8_strip hs
  | some t =>
    obtain ⟨pre, rfl⟩ := after_spec hafter
    exact utf8_behind_text (by decide +kernel) (by decide +kernel) hs

end LocalVoice.AsrWorker
