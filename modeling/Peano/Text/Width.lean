import Peano.Text.Printable
namespace Peano.Text

def wideRanges : List (Nat × Nat) := rangesOf [
  "11:00-5F 23:1A-1B 29-2A E9-EC F0 F3 25:FD-FE 26:14-15 48-53 7F 93 A1 AA-AB BD-BE C4-C5 CE D4 EA F2-F3 F5 FA",
  "26:FD 27:05 0A-0B 28 4C 4E 53-55 57 95-97 B0 BF 2B:1B-1C 50 55 2E:80-99 9B-F3 2F:00-D5 F0-30:3E 41-96 99-FF",
  "31:05-2F 31-8E 90-E3 EF-32:1E 20-47 50-4D:BF 4E:00-A4:8C 90-C6 A9:60-7C AC:00-D7:A3 F9:00-FA:FF FE:10-19",
  "FE:30-52 54-66 68-6B FF:01-60 E0-E6 16F:E0-E4 F0-F1 170:00-187:F7 188:00-18C:D5 18D:00-08 1AF:F0-F3 F5-FB",
  "1AF:FD-FE 1B0:00-1B1:22 32 50-52 55 64-67 70-1B2:FB 1F0:04 CF 1F1:8E 91-9A 1F2:00-02 10-3B 40-48 50-51 60-65",
  "1F3:00-20 2D-35 37-7C 7E-93 A0-CA CF-D3 E0-F0 F4 F8-1F4:3E 40 42-FC FF-1F5:3D 4B-4E 50-67 7A 95-96 A4",
  "1F5:FB-1F6:4F 80-C5 CC D0-D2 D5-D7 DC-DF EB-EC F4-FC 1F7:E0-EB F0 1F9:0C-3A 3C-45 47-FF 1FA:70-7C 80-88",
  "1FA:90-BD BF-C5 CE-DB E0-E8 F0-F8 200:00-2FF:FD 300:00-3FF:FD"]

/-- Marks drawn over the character before them. -/
def markRanges : List (Nat × Nat) := rangesOf [
  "3:00-6F 4:83-89 7:EB-F3 C:00 04 F3 D:00-01 13:5D-5F 1A:7F B0-CE 1B:6B-73 1D:C0-FF 20:D0-F0 2C:EF-F1 2D:E0-FF",
  "30:99-9A A6:6F-72 74-7D 9E-9F F0-F1 A8:E0-F1 FE:20-2F 101:FD 103:76-7A 10E:AB-AC 10F:46-50 82-85 113:00-01",
  "113:3B-3C 66-6C 70-74 16A:F0-F4 1CF:00-2D 30-46 1D1:65-69 6D-72 7B-82 85-8B AA-AD 1D2:42-44 1E0:00-06 08-18",
  "1E0:1B-21 23-24 26-2A 8F 1E8:D0-D6"]

/-- Format characters above U+0300 that draw nothing. -/
def invisibleRanges : List (Nat × Nat) := rangesOf ["7:0F 18:0B-0E 20:0B-0F 28-2E 6A-6F FE:FF FF:F9-FB FE-FF"]

/-- Characters that are narrow among letters and wide among ideographs. -/
def ambiguousRanges : List (Nat × Nat) := rangesOf [
  "0:A1 A4 A7-A8 AA AD-AE B0-B4 B6-BA BC-BF C6 D0 D7-D8 DE-E1 E6 E8-EA EC-ED F0 F2-F3 F7-FA FC FE 1:01 11 13 1B",
  "1:26-27 2B 31-33 38 3F-42 44 48-4B 4D 52-53 66-67 6B CE D0 D2 D4 D6 D8 DA DC 2:51 61 C4 C7 C9-CB CD D0 D8-DB",
  "2:DD DF 3:00-6F 91-A1 A3-A9 B1-C1 C3-C9 4:01 10-4F 51 20:10 13-16 18-19 1C-1D 20-22 24-27 30 32-33 35 3B 3E",
  "20:74 7F 81-84 AC 21:03 05 09 13 16 21-22 26 2B 53-54 5B-5E 60-6B 70-79 89 90-99 B8-B9 D2 D4 E7 22:00 02-03",
  "22:07-08 0B 0F 11 15 1A 1D-20 23 25 27-2C 2E 34-37 3C-3D 48 4C 52 60-61 64-67 6A-6B 6E-6F 82-83 86-87 95 99",
  "22:A5 BF 23:12 24:60-E9 EB-25:4B 50-73 80-8F 92-95 A0-A1 A3-A9 B2-B3 B6-B7 BC-BD C0-C1 C6-C8 CB CE-D1 E2-E5",
  "25:EF 26:05-06 09 0E-0F 1C 1E 40 42 60-61 63-65 67-6A 6C-6D 6F 9E-9F BF C6-CD CF-D3 D5-E1 E3 E8-E9 EB-F1 F4",
  "26:F6-F9 FB-FC FE-FF 27:3D 76-7F 2B:56-59 32:48-4F E0:00-F8:FF FE:00-0F FF:FD 1F1:00-0A 10-2D 30-69 70-8D",
  "1F1:8F-90 9B-AC E01:00-EF F00:00-FFF:FD 1000:00-10FF:FD"]

/-- How characters of no fixed width are shown. -/
inductive Ambiguous where
  | narrow
  | wide
  deriving DecidableEq, Repr

def columns (ambiguous : Ambiguous) (c : Char) : Nat :=
  let code := c.toNat
  let wide := inRanges wideRanges code || (ambiguous = .wide && inRanges ambiguousRanges code)
  if code < 0x20 || (0x7F ≤ code && code ≤ 0x9F) || code == 0xAD then 0
  else if code < 0x300 then if wide then 2 else 1
  else if inRanges invisibleRanges code || inRanges markRanges code then 0
  else if wide then 2
  else 1

end Peano.Text
