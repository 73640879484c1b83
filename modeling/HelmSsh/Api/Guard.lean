/-
# The guard of the API commands

`check_dangerous_command` (`src-tauri/src/api_server/guard.rs`) looks at a command before
the API runs it.  The text is trimmed, lower-cased and freed of quotes and backslashes;
`&&`, `||` and the characters `;|(){}` get a space on both sides.  The rules look at this
text (`normalized`), at its words (`parts`) and at the words with one space between two
(`squeezed`).

`str::to_lowercase` follows a table of the Unicode standard, which is a parameter here
(`CaseTable`): what is known of it is what it does to ASCII, to white space, and which ASCII
letters it makes of other characters.  That it writes a sigma at the end of a word in another
way than inside one is left out; no rule looks for either.
-/

import Mathlib.Data.List.Infix
import HelmSsh.Text
import HelmSsh.BlankWords

namespace HelmSsh
namespace Api
namespace Guard

/-! ### The text that the rules look at -/

/-- The lower-case table of Unicode. -/
structure CaseTable where
  lower : Char → List Char
  ascii : ∀ c, c.toNat < 128 → lower c = [c.toLower]
  blank : ∀ c, Text.isWhitespace c = true → lower c = [c]
  /-- Of the characters beyond ASCII, `İ` and the Kelvin sign have an ASCII letter. -/
  other : ∀ c, 128 ≤ c.toNat → Text.isWhitespace c = false → lower c ≠ [] ∧ ∀ d ∈ lower c,
    Text.isWhitespace d = false ∧ (d.toNat < 128 → d = 'i' ∨ d = 'k')

/-- `str::to_lowercase`. -/
def toLowercase (U : CaseTable) (s : List Char) : List Char :=
  s.flatMap U.lower

/-- The quotes that are dropped. -/
def isQuote (c : Char) : Bool :=
  c = '\'' || c = '"' || c = '`'

/-- The filter of the quotes and `.replace('\\', "")`. -/
def stripped (s : List Char) : List Char :=
  (s.filter fun c => !isQuote c).filter fun c => c ≠ '\\'

/-- `.replace` of a doubled character. -/
def replacePair (c : Char) (by' : List Char) : List Char → List Char
  | x :: y :: rest =>
    if x = c ∧ y = c then by' ++ replacePair c by' rest else x :: replacePair c by' (y :: rest)
  | rest => rest

/-- `.replace` of a character. -/
def replaceChar (c : Char) (by' : List Char) (s : List Char) : List Char :=
  s.flatMap fun x => if x = c then by' else [x]

/-- The replacements that set the separators apart. -/
def spaced (s : List Char) : List Char :=
  let s := replacePair '&' " && ".toList s
  let s := replacePair '|' " || ".toList s
  let s := replaceChar ';' " ; ".toList s
  let s := replaceChar '|' " | ".toList s
  let s := replaceChar '(' " ( ".toList s
  let s := replaceChar ')' " ) ".toList s
  let s := replaceChar '\x7b' " \x7b ".toList s
  replaceChar '\x7d' " \x7d ".toList s

/-- What the rules look at. -/
structure Line where
  normalized : List Char
  squeezed : List Char
  parts : List (List Char)

/-- `normalized`, its words, and the words joined again. -/
def Line.of (normalized : List Char) : Line :=
  let parts := Words.words Text.isWhitespace normalized
  { normalized, squeezed := Words.join ' ' parts, parts }

/-- `str::contains`. -/
def contains (s : List Char) (pattern : String) : Bool :=
  decide (pattern.toList <:+: s)

/-- `str::starts_with`. -/
def startsWith (s : List Char) (pattern : String) : Bool :=
  decide (pattern.toList <+: s)

/-- `str::ends_with`. -/
def endsWith (s : List Char) (pattern : String) : Bool :=
  decide (pattern.toList <:+ s)

/-! ### The recursive rm -/

/-- The loop of `normalize_delete_target` over the segments. -/
def resolveSegments : List (List Char) → List (List Char) → List (List Char)
  | segments, [] => segments
  | segments, segment :: rest =>
    if segment = [] ∨ segment = ['.'] then
      resolveSegments segments rest
    else if segment = ['.', '.'] then
      resolveSegments segments.dropLast rest
    else
      resolveSegments (segments ++ [segment]) rest

/-- `normalize_delete_target`. -/
def normalizeDeleteTarget (value : List Char) : List Char :=
  let segments := resolveSegments [] (value.splitOn '/')
  if value.head? = some '/' then
    '/' :: Words.join '/' segments
  else if segments = [] then
    ['.']
  else
    Words.join '/' segments

/-- `DANGEROUS_TARGETS`. -/
def dangerousTargets : List String :=
  ["/", "/*", "/.", "/..", "~", "~/", "$home", "$\x7bhome\x7d", "/home", "/home/*", "/root",
    "/root/*", "/usr", "/usr/*", "/etc", "/etc/*", "/var", "/var/*", "/boot", "/boot/*",
    "/sys", "/sys/*", "/proc", "/proc/*", "/dev", "/dev/*", "/run", "/run/*", "/lib", "/lib/*",
    "/lib64", "/lib64/*", "/opt", "/opt/*", "/sbin", "/sbin/*", "/bin", "/bin/*"]

/-- The characters that `trim_matches` takes off a target. -/
def isBracket (c : Char) : Bool :=
  c = '(' || c = ')' || c = '\x7b' || c = '\x7d' || c = ';'

/-- `is_dangerous_recursive_delete_target`. -/
def isDangerousRecursiveDeleteTarget (value : List Char) : Bool :=
  let value := ((value.dropWhile isBracket).reverse.dropWhile isBracket).reverse
  if startsWith value "~/.." || startsWith value "$home/.." || startsWith value "$\x7bhome\x7d/.."
  then
    true
  else
    let target := normalizeDeleteTarget value
    dangerousTargets.any fun dangerous => target = normalizeDeleteTarget dangerous.toList

/-- The words at which the arguments of an `rm` end. -/
def isSeparator (arg : List Char) : Bool :=
  [";", "&&", "||", "|", "(", ")", "\x7b", "\x7d"].any fun s => arg = s.toList

/-- The loop over the arguments of one `rm`: whether an option is recursive, and what the
targets are. -/
def rmArgs : Bool → Bool → List (List Char) → List (List Char) → Bool × List (List Char)
  | recursive, _, targets, [] => (recursive, targets)
  | recursive, parseOptions, targets, arg :: rest =>
    if isSeparator arg then
      (recursive, targets)
    else if arg = "--".toList then
      rmArgs recursive false targets rest
    else if parseOptions ∧ startsWith arg "--" then
      rmArgs (recursive || arg = "--recursive".toList || arg = "--dir".toList) parseOptions
        targets rest
    else if parseOptions ∧ startsWith arg "-" then
      rmArgs (recursive || (arg.drop 1).contains 'r' || (arg.drop 1).contains 'R') parseOptions
        targets rest
    else
      rmArgs recursive parseOptions (targets ++ [arg]) rest

/-- The arguments of one `rm` are dangerous. -/
def rmDangerous (args : List (List Char)) : Bool :=
  let (recursive, targets) := rmArgs false true [] args
  recursive && targets.any isDangerousRecursiveDeleteTarget

/-- `has_dangerous_recursive_rm`. -/
def hasDangerousRecursiveRm : List (List Char) → Bool
  | [] => false
  | token :: rest =>
    (token = "rm".toList && rmDangerous rest) || hasDangerousRecursiveRm rest

/-! ### The rules -/

/-- Rule 1. -/
def forkBomb (l : Line) : Bool :=
  contains l.squeezed ":()\x7b :|:& \x7d;:" || contains l.squeezed ":()\x7b:|:&\x7d;:" ||
    contains l.normalized ":()\x7b"

/-- Rule 3: the command is about `find`. -/
def mentionsFind (l : Line) : Bool :=
  l.parts.contains "find".toList || contains l.squeezed " find "

/-- Rule 4. -/
def formatsDisk (l : Line) : Bool :=
  (contains l.squeezed "mkfs." || startsWith l.squeezed "mkfs " || contains l.squeezed " mkfs ") &&
    ["/dev/sd", "/dev/nvme", "/dev/vd", "/dev/hd", "/dev/mmc"].any (contains l.normalized)

/-- Rule 4, `wipefs`. -/
def wipes (l : Line) : Bool :=
  contains l.squeezed "wipefs " || startsWith l.squeezed "wipefs"

/-- Rule 4, `shred`. -/
def shredsDevice (l : Line) : Bool :=
  contains l.squeezed "shred " &&
    ["/dev/sd", "/dev/nvme", "/dev/vd", "/dev/hd"].any (contains l.normalized)

/-- Rule 5. -/
def ddToDevice (l : Line) : Bool :=
  (l.parts.head? = some "dd".toList || contains l.squeezed " dd " || contains l.squeezed ";dd " ||
      contains l.squeezed "&& dd ") &&
    ["of=/dev/sd", "of=/dev/nvme", "of=/dev/vd", "of=/dev/hd"].any (contains l.normalized)

/-- Rule 6. -/
def redirectsToDevice (l : Line) : Bool :=
  ["> /dev/sd", ">/dev/sd", "> /dev/nvme", ">/dev/nvme", "> /dev/vd", ">/dev/vd", "> /dev/hd",
    ">/dev/hd"].any (contains l.normalized)

/-- `system_dirs` of rule 7. -/
def systemDirs : List String :=
  [" /", " /*", " /etc", " /usr", " /var", " /bin", " /sbin", " /lib", " /lib64",
    " /boot", " /home",
    " /root", " ~"]

/-- Rule 7. -/
def changesSystemPermissions (l : Line) : Bool :=
  let touchesPerm := contains l.squeezed "chmod " || contains l.squeezed "chown "
  let recursiveFlag := contains l.squeezed " -r " || contains l.squeezed " -rf " ||
    contains l.squeezed " -fr " || contains l.squeezed " --recursive " ||
    contains l.squeezed " -r\t" || endsWith l.squeezed " -r" || endsWith l.squeezed " --recursive"
  touchesPerm && recursiveFlag &&
    ((systemDirs.any fun d =>
        contains l.squeezed (d ++ " ") || endsWith l.squeezed d ||
          contains l.squeezed (d ++ ";")) ||
      endsWith l.squeezed " /")

/-- Rule 8. -/
def pipesDownloadToShell (l : Line) : Bool :=
  ["curl ", "curl\t", "wget ", "wget\t"].any (contains l.squeezed) &&
    ["| sh", "|sh", "| bash", "|bash", "| zsh", "|zsh", "| /bin/sh", "|/bin/sh", "| /bin/bash",
      "|/bin/bash"].any (contains l.squeezed)

/-- `powerstate_tokens` of rule 9. -/
def powerstateTokens : List String :=
  ["shutdown", "reboot", "halt", "poweroff"]

/-- Rule 9, for the first word. -/
def startsWithPower (l : Line) : Bool :=
  powerstateTokens.any fun tok => (l.parts.head?.getD []) = tok.toList

/-- Rule 9, anywhere. -/
def containsPower (l : Line) : Bool :=
  powerstateTokens.any fun tok =>
    contains l.squeezed (" " ++ tok ++ " ") || contains l.squeezed (";" ++ tok ++ " ") ||
      contains l.squeezed ("&& " ++ tok ++ " ") || contains l.squeezed (" " ++ tok ++ ";") ||
      endsWith l.squeezed (" " ++ tok) || contains l.squeezed ("\"" ++ tok ++ " ") ||
      contains l.squeezed ("'" ++ tok ++ " ")

/-- Rule 9, `init`. -/
def initPower (l : Line) : Bool :=
  contains l.squeezed "init 0" || contains l.squeezed "init 6" ||
    (l.parts.head? = some "init".toList &&
      (l.parts[1]? = some "0".toList || l.parts[1]? = some "6".toList))

/-- `critical_files` of rule 10. -/
def criticalFiles : List String :=
  ["/etc/passwd", "/etc/shadow", "/etc/sudoers", "/etc/fstab", "/etc/hosts",
    "/etc/ssh/sshd_config", "/boot/grub/grub.cfg"]

/-- Rule 10 for one file. -/
def truncates (l : Line) (cf : String) : Bool :=
  (contains l.normalized ("> " ++ cf) && !contains l.normalized (">> " ++ cf)) ||
    (contains l.normalized (">" ++ cf) && !contains l.normalized (">>" ++ cf))

/-- The rules in the order in which the source tries them, each with the reason that it
returns. -/
def rules (strict : Bool) : List ((Line → Bool) × String) :=
  [(forkBomb, "禁止 Fork 炸弹"),
    (fun l => contains l.normalized "--no-preserve-root", "禁止跳过根目录保护删除"),
    (fun l => hasDangerousRecursiveRm l.parts, "禁止递归删除根/系统目录或用户家目录"),
    (fun l => strict && mentionsFind l &&
      (contains l.squeezed " -delete" || endsWith l.squeezed " -delete"), "禁止 find -delete"),
    (fun l => strict && mentionsFind l &&
      (contains l.squeezed "-exec rm" || contains l.squeezed "-execdir rm"), "禁止 find -exec rm"),
    (formatsDisk, "禁止格式化磁盘"),
    (wipes, "禁止 wipefs"),
    (shredsDevice, "禁止 shred 块设备"),
    (ddToDevice, "禁止 dd 写入块设备"),
    (redirectsToDevice, "禁止写入块设备"),
    (changesSystemPermissions, "禁止递归修改系统目录权限"),
    (fun l => strict && pipesDownloadToShell l, "禁止远程下载并直接执行脚本"),
    (fun l => strict && startsWithPower l, "禁止关机/重启命令"),
    (fun l => strict && containsPower l, "禁止关机/重启命令"),
    (fun l => strict && initPower l, "禁止关机/重启命令"),
    (fun l => criticalFiles.any (truncates l), "禁止覆盖关键系统文件")]

/-- The text before the separators are set apart. -/
def bare (U : CaseTable) (command : List Char) : List Char :=
  stripped (toLowercase U command)

/-- `check_dangerous_command`: the reason of the first rule that applies. -/
def checkDangerousCommand (U : CaseTable) (command : String) (strict : Bool) : Option String :=
  let trimmed := (Text.trim command).toList
  if toLowercase U trimmed = [] then
    none
  else
    let line := Line.of (spaced (bare U trimmed))
    ((rules strict).find? fun rule => rule.1 line).map Prod.snd

theorem toLower_eq_self {c : Char} (h : c.toNat < 65 ∨ 90 < c.toNat) : c.toLower = c := by
  refine dif_neg fun hletter => ?_
  have h1 : 65 ≤ c.toNat := UInt32.le_iff_toNat_le.mp hletter.1
  have h2 : c.toNat ≤ 90 := UInt32.le_iff_toNat_le.mp hletter.2
  omega

/-- A table that leaves alone what is beyond ASCII. -/
def exampleTable : CaseTable where
  lower c := if c.toNat < 128 then [c.toLower] else [c]
  ascii c h := if_pos h
  blank c h := by
    split_ifs with hascii
    · rw [toLower_eq_self]
      simp only [Text.isWhitespace, Bool.or_eq_true, Bool.and_eq_true, decide_eq_true_eq] at h
      omega
    · rfl
  other c hother hblank := by
    rw [if_neg (by omega)]
    refine ⟨List.cons_ne_nil _ _, fun d hd => ?_⟩
    rw [List.mem_singleton] at hd
    subst hd
    exact ⟨hblank, fun h => absurd h (by omega)⟩

example : checkDangerousCommand exampleTable "bash -c 'rm -rf /'" false =
    some "禁止递归删除根/系统目录或用户家目录" := by decide +kernel

end Guard
end Api
end HelmSsh
