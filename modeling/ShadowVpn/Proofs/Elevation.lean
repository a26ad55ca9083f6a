import ShadowVpn.Spec.Desktop

/-! The command with which the desktop app starts its helper on macOS. Two readers see it, the one
of the script and then the shell, and each path has to come out of both as it went in. -/

namespace ShadowVpn

open Lib

variable {label : String} {s helper tokenFile portFile clientBin : Text}

/-! The shell. -/

theorem shQuote_eq (s : Text) : shQuote s = Shell.singleQuote s := rfl

def launchWords (helper tokenFile portFile clientBin : Text) : List Shell.Token :=
  [.word helper, .word "--token-file".toList, .word tokenFile, .word "--port-file".toList,
    .word portFile, .word "--client-bin".toList, .word clientBin]

/-- What follows them: `</dev/null >/dev/null 2>&1 &`. -/
def detached : List Shell.Token :=
  [.op .less, .word "/dev/null".toList, .op .great, .word "/dev/null".toList,
    .ioNumber ['2'], .op .greatAnd, .word ['1'], .op .amp]

theorem lex_elevatedCommand (helper tokenFile portFile clientBin : Text) :
    Shell.lex (elevatedCommand helper tokenFile portFile clientBin) =
      some (launchWords helper tokenFile portFile clientBin ++ detached) := by
  have hsplit : elevatedCommand helper tokenFile portFile clientBin =
      Shell.singleQuote helper ++
        ((' ' :: ('-' :: "-token-file".toList ++ ' ' :: Shell.singleQuote tokenFile)) ++
          ((' ' :: ('-' :: "-port-file".toList ++ ' ' :: Shell.singleQuote portFile)) ++
            ((' ' :: ('-' :: "-client-bin".toList ++ ' ' :: Shell.singleQuote clientBin)) ++
              " </dev/null >/dev/null 2>&1 &".toList))) := by
    simp only [elevatedCommand, shQuote_eq, List.append_assoc]
    rfl
  rw [hsplit, Shell.lex, Shell.Lexer.start, Shell.foldlM_append_of (Shell.foldlM_singleQuote helper),
    Shell.foldlM_append_of (Shell.foldlM_argument (by decide) helper false tokenFile),
    Shell.foldlM_append_of (Shell.foldlM_argument (by decide) tokenFile false portFile),
    Shell.foldlM_append_of (Shell.foldlM_argument (by decide) portFile false clientBin)]
  rfl

/-! The script. -/

theorem all_of_checkPathSafe (h : checkPathSafe label s = .ok ()) :
    s.all (fun c => !isAsciiControl c) = true := by
  unfold checkPathSafe at h
  split_ifs at h with hquote hcontrol
  rw [← List.not_any_eq_all_not, Bool.not_eq_true']
  exact eq_false_of_ne_true hcontrol

theorem all_shQuote (h : s.all (fun c => !isAsciiControl c) = true) :
    (shQuote s).all (fun c => !isAsciiControl c) = true := by
  have hsub := all_substitute (c := '\'') (t := ['\'', '\\', '\'', '\'']) (by decide) h
  simp only [shQuote, List.all_append, hsub, Bool.and_true]
  decide

theorem all_elevatedCommand (hhelper : helper.all (fun c => !isAsciiControl c) = true)
    (htoken : tokenFile.all (fun c => !isAsciiControl c) = true)
    (hport : portFile.all (fun c => !isAsciiControl c) = true)
    (hclient : clientBin.all (fun c => !isAsciiControl c) = true) :
    (elevatedCommand helper tokenFile portFile clientBin).all (fun c => !isAsciiControl c) = true := by
  simp only [elevatedCommand, List.all_append, all_shQuote hhelper, all_shQuote htoken,
    all_shQuote hport, all_shQuote hclient, Bool.true_and, Bool.and_true]
  decide

theorem elevatedScript_eq (helper tokenFile portFile clientBin : Text) :
    elevatedScript helper tokenFile portFile clientBin = "do shell script ".toList ++
      '"' :: (escape (elevatedCommand helper tokenFile portFile clientBin) ++ '"' :: AUTHORIZATION) := by
  unfold elevatedScript escape
  simp only [List.append_assoc, List.cons_append, List.nil_append]

/-- With paths that the check accepts, the script is a literal between fixed texts. The literal is a
command of seven words, in which each path is one word and stands for itself, and after them come
the fixed redirections and the operator for the background. -/
theorem spawnElevatedHelper_words (helper tokenFile portFile clientBin : Text)
    (hhelper : checkPathSafe "helper binary" helper = .ok ())
    (htoken : checkPathSafe "helper token file" tokenFile = .ok ())
    (hport : checkPathSafe "helper port file" portFile = .ok ())
    (hclient : checkPathSafe "client binary" clientBin = .ok ()) :
    ∃ script text command,
      (∀ osascript, spawnElevatedHelper osascript helper tokenFile portFile clientBin =
        (osascript script).result) ∧
      script = "do shell script ".toList ++ text ∧
      literal text = some (command, AUTHORIZATION) ∧
      Shell.lex command =
        some (launchWords helper tokenFile portFile clientBin ++ detached) := by
  have hplain := all_elevatedCommand (all_of_checkPathSafe hhelper) (all_of_checkPathSafe htoken)
    (all_of_checkPathSafe hport) (all_of_checkPathSafe hclient)
  exact ⟨_, _, _, fun osascript => rfl, elevatedScript_eq helper tokenFile portFile clientBin,
    literal_escape hplain AUTHORIZATION, lex_elevatedCommand helper tokenFile portFile clientBin⟩

/-- A client in a directory whose name has a blank, an apostrophe, a dollar and a backslash. Its path
is the seventh word. -/
theorem spawnElevatedHelper_words_odd : ∃ script text command tokens,
    (∀ osascript, spawnElevatedHelper osascript ['/', 'h'] ['/', 't'] ['/', 'p']
      ['/', ' ', '\'', '$', '\\', 'c'] = (osascript script).result) ∧
    script = "do shell script ".toList ++ text ∧ literal text = some (command, AUTHORIZATION) ∧
    Shell.lex command = some tokens ∧ tokens[6]? = some (.word ['/', ' ', '\'', '$', '\\', 'c']) := by
  obtain ⟨script, text, command, hscript, htext, hliteral, hlex⟩ := spawnElevatedHelper_words
    ['/', 'h'] ['/', 't'] ['/', 'p'] ['/', ' ', '\'', '$', '\\', 'c'] rfl rfl rfl rfl
  exact ⟨script, text, command, _, hscript, htext, hliteral, hlex, rfl⟩

end ShadowVpn
