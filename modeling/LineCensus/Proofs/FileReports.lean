import LineCensus.Proofs.DeclaredBound
import LineCensus.Proofs.Rounding
import LineCensus.Report.Printed
import LineCensus.Scan

/-! The report of a single file: its numbers are in the range of binary64 whatever the file holds, since a file
that is read is not too large. -/
namespace LineCensus

namespace Numeric.Binary64

private theorem quotientExponent_le {num den : Nat} (h : Nat.log2 num ≤ Nat.log2 den + 128) :
    quotientExponent num den ≤ 76 := by
  simp only [quotientExponent, minExponent]
  split <;> omega

private theorem ofQuotient_finite (negative : Bool) {num den : Nat} (h : Nat.log2 num ≤ Nat.log2 den + 128) :
    ∃ significand exponent, ofQuotient negative num den = .finite negative significand exponent := by
  have hexponent := quotientExponent_le h
  rw [ofQuotient]
  split
  · exact ⟨_, _, rfl⟩
  · dsimp only
    rw [carried]
    split
    · rw [bounded, if_neg (by unfold maxExponent; omega)]
      exact ⟨_, _, rfl⟩
    · rw [bounded, if_neg (by unfold maxExponent; omega)]
      exact ⟨_, _, rfl⟩

private theorem log2_le_of_le_mul {num den : Nat} (h : num ≤ 2 ^ 128 * den) : Nat.log2 num ≤ Nat.log2 den + 128 := by
  rcases Nat.eq_zero_or_pos num with rfl | hn
  · exact Nat.zero_le _
  · refine Nat.le_of_lt_succ ((Nat.log2_lt hn.ne').mpr ?_)
    calc num ≤ 2 ^ 128 * den := h
      _ < 2 ^ 128 * 2 ^ (Nat.log2 den + 1) := Nat.mul_lt_mul_of_pos_left Nat.lt_log2_self (by decide)
      _ = 2 ^ (Nat.log2 den + 129) := by rw [← pow_add, Nat.add_comm, Nat.add_assoc]

end Numeric.Binary64

private theorem exists_ratio_of_log2 {part whole : Int} (h : Nat.log2 part.natAbs ≤ Nat.log2 whole.natAbs + 128) :
    ∃ x, ratio part whole = .ok x := by
  rw [ratio]
  split
  · exact ⟨_, rfl⟩
  · obtain ⟨m, e, hfinite⟩ :=
      Numeric.Binary64.ofQuotient_finite (decide (part < 0) != decide (whole < 0)) h
    rw [Numeric.Binary64.ofRatio?, hfinite]
    exact ⟨_, rfl⟩

theorem exists_ratio {part whole : Int} (hpart : 0 ≤ part) (hle : part ≤ 2 ^ 128 * whole) :
    ∃ x, ratio part whole = .ok x :=
  exists_ratio_of_log2 (Numeric.Binary64.log2_le_of_le_mul (by omega))

theorem exists_percentage {part whole : Int} (hpart : 0 ≤ part) (hle : part ≤ whole) :
    ∃ x, percentage part whole = .ok x := by
  obtain ⟨x, hx⟩ := exists_ratio hpart (by omega : part ≤ 2 ^ 128 * whole)
  rw [percentage, hx]
  exact ⟨_, rfl⟩

private theorem Report.exists_fileSize {bytes : Int} (h : bytes.natAbs < 2 ^ 128) :
    ∃ text, fileSize bytes = .ok text := by
  rw [fileSize]
  split
  · exact ⟨_, rfl⟩
  · have hlog := Numeric.Binary64.log2_le_of_le_mul (by omega : bytes.natAbs ≤ 2 ^ 128 * 1)
    obtain ⟨m, e, hfinite⟩ := Numeric.Binary64.ofQuotient_finite (decide (bytes < 0)) hlog
    rw [Numeric.Binary64.ofInt?, hfinite]
    exact ⟨_, rfl⟩

/-- Counters of lines that are some of the total, and not far more declarations than lines. -/
structure Stats.InProportion (stats : Stats) : Prop where
  blank : 0 ≤ stats.blank ∧ stats.blank ≤ stats.total
  comment : 0 ≤ stats.comment ∧ stats.comment ≤ stats.total
  code : 0 ≤ stats.code ∧ stats.code ≤ stats.total
  declared : 0 ≤ stats.declared ∧ stats.declared ≤ 2 ^ 128 * stats.total

private theorem Report.exists_ofFile {entry : FileEntry} (h : entry.stats.InProportion) {bytes : Int}
    (hbytes : bytes.natAbs < 2 ^ 128) (tokens : Option Int) :
    ∃ report, ofFile entry (some bytes) tokens = .ok report := by
  obtain ⟨blank, hblank⟩ := exists_percentage h.blank.1 h.blank.2
  obtain ⟨comment, hcomment⟩ := exists_percentage h.comment.1 h.comment.2
  obtain ⟨code, hcode⟩ := exists_percentage h.code.1 h.code.2
  obtain ⟨perLine, hperLine⟩ := exists_ratio h.declared.1 h.declared.2
  obtain ⟨size, hsize⟩ := exists_fileSize hbytes
  simp only [ofFile, Stats.blankRatio, Stats.commentRatio, Stats.codeDensity, Stats.variablesPerLine, hblank,
    hcomment, hcode, hperLine, Option.mapM_some, hsize]
  exact ⟨_, rfl⟩

private theorem Text.Utf8.length_decodeFrom {offset : Nat} {done : List Char} {bytes : List UInt8} {text : List Char}
    (h : decodeFrom offset done bytes = .ok text) : text.length ≤ done.length + bytes.length := by
  fun_induction decodeFrom offset done bytes with
  | case1 offset done =>
    cases h
    simp
  | _ => first
    | cases h
    | rename_i ih
      have hlength := ih h
      simp only [List.length_cons] at hlength ⊢
      omega

private theorem Text.length_normalizeNewlines_le (text : List Char) :
    (normalizeNewlines text).length ≤ text.length := by
  refine (List.length_filterMap_le _ _).trans ?_
  rw [List.length_zip]
  exact Nat.min_le_left _ _

private theorem Content.length_toList (content : Content) : content.toList.length = content.size := by
  cases content with
  | bytes data => rfl
  | zeros size => exact List.length_replicate

/-- A file that is read is not too large, and has no more characters than bytes. -/
theorem of_readSource_eq_ok {disk : Node} {path : Path} {displayName : String} {maxBytes : Int} {text : List Char}
    (h : readSource disk path displayName maxBytes = .ok text) :
    ∃ content, disk.read path = .ok content ∧ content.size ≤ maxBytes ∧ text.length ≤ content.size := by
  rw [readSource] at h
  split at h
  · cases h
  · rename_i content hread
    split at h
    · cases h
    · rename_i hsize
      split at h
      · cases h
      · rename_i decoded hdecode
        cases h
        refine ⟨content, hread, Int.not_lt.mp hsize, (Text.length_normalizeNewlines_le _).trans ?_⟩
        rw [← content.length_toList]
        simpa using Text.Utf8.length_decodeFrom hdecode

private theorem Stats.kinds_foldl (results : List LineResult) (stats : Stats) :
    stats.blank ≤ (results.foldl count stats).blank ∧ stats.comment ≤ (results.foldl count stats).comment ∧
      stats.code ≤ (results.foldl count stats).code := by
  induction results generalizing stats with
  | nil => simp
  | cons result rest ih =>
    obtain ⟨hblank, hcomment, hcode⟩ := ih (stats.count result)
    rw [List.foldl_cons]
    cases hkind : result.kind <;> simp only [count, hkind] at hblank hcomment hcode ⊢ <;> omega

/-- The declarations of a text of a file that is read are far inside the range of binary64. -/
theorem Language.mostDeclared_le {language : Language} (hbuiltin : language ∈ builtin) {length : Nat}
    (h : length ≤ maxFileBytes) : language.mostDeclared length ≤ 10 * (maxFileBytes * (maxFileBytes + 1)) := by
  have hfamilies : language.heuristic.families.length ≤ 10 := by
    revert language
    decide
  unfold mostDeclared
  gcongr

/-- The lines of a text of a file that is read are counted in proportion in each of the builtin languages. -/
theorem Language.inProportion_stats {language : Language} (hbuiltin : language ∈ builtin) {text : List Char}
    (htext : text.length ≤ maxFileBytes) (k : Nat) :
    let stats := Stats.ofResults (readAll language.readLine .normal ((Text.splitAt '\n' text).take k)).1
    stats.InProportion ∧ stats.total ≤ 2 ^ 128 := by
  intro stats
  let results := (readAll language.readLine .normal ((Text.splitAt '\n' text).take k)).1
  have htotal : stats.total = results.length := Stats.total_ofResults results
  have hcount : results.length ≤ maxFileBytes + 1 :=
    (language.length_readLines_le text k).trans (Nat.succ_le_succ htext)
  have hmost : language.mostDeclared text.length ≤ 2 ^ 128 :=
    (mostDeclared_le hbuiltin htext).trans (by decide)
  obtain ⟨hlow, hhigh⟩ : 0 ≤ stats.declared ∧ stats.declared ≤ 0 + results.length * language.mostDeclared text.length :=
    Stats.declared_foldl (fun _ hmem => language.declared_of_mem_readLines text k hmem) {}
  have hdeclared : (results.length * language.mostDeclared text.length : Int) ≤ 2 ^ 128 * results.length := by
    rw [Int.mul_comm]
    exact_mod_cast Nat.mul_le_mul_right results.length hmost
  obtain ⟨hblank, hcomment, hcode⟩ : 0 ≤ stats.blank ∧ 0 ≤ stats.comment ∧ 0 ≤ stats.code :=
    Stats.kinds_foldl results {}
  have hsum : stats.blank + stats.comment + stats.code = stats.total := Stats.balanced_ofResults results
  have hmax : maxFileBytes + 1 ≤ 2 ^ 128 := by decide
  refine ⟨⟨⟨hblank, by omega⟩, ⟨hcomment, by omega⟩, ⟨hcode, by omega⟩, ⟨hlow, ?_⟩⟩, by omega⟩
  rw [htotal]
  omega

theorem Registry.mem_of_resolve? {name : String} {language : Language}
    (h : Registry.builtin.resolve? name = some language) : language ∈ Language.builtin := by
  obtain ⟨extension, -, hfind⟩ := Option.bind_eq_some_iff.mp h
  exact List.mem_of_find?_eq_some hfind

/-- A file that is read has a report. -/
theorem exists_report {disk : Node} {path : Path} {shown name : String} {content : Content} {text : List Char}
    {language : Language} (hread : disk.read path = .ok content)
    (htext : readSource disk path shown maxFileBytes = .ok text)
    (hlanguage : Registry.builtin.resolve? name = some language) (filename : String) (k : Nat) (tokens : Option Int) :
    ∃ report, Report.ofFile ⟨filename, language.name, .ofResults (readAll language.readLine .normal
      ((Text.splitAt '\n' text).take k)).1⟩ (some content.size) tokens = .ok report := by
  obtain ⟨_, hcontent, hsize, hlength⟩ := of_readSource_eq_ok htext
  obtain rfl := Except.ok.inj (hread.symm.trans hcontent)
  have hmax : maxFileBytes < 2 ^ 128 := by decide
  have hbytes : (content.size : Int).natAbs < 2 ^ 128 := by omega
  have hstats := Language.inProportion_stats (Registry.mem_of_resolve? hlanguage)
    (hlength.trans (Int.ofNat_le.mp hsize)) k
  exact Report.exists_ofFile hstats.1 hbytes tokens

end LineCensus
