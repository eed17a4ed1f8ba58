import Peano.Text.Printable
namespace Peano.Text

inductive ClusterClass where
  | cr | lf | control | extend | joiner | regional | prepended | spacing
  | leadingJamo | vowelJamo | trailingJamo | openSyllable | closedSyllable | pictograph | other
  deriving DecidableEq, Repr

/-- Controls other than the line ends. -/
def controlRanges : List (Nat × Nat) := rangesOf [
  "0:00-09 0B-0C 0E-1F 7F-9F AD 6:1C 18:0E 20:0B 0E-0F 28-2E 60-6F FE:FF FF:F0-FB 134:30-3F 1BC:A0-A3 1D1:73-7A",
  "E00:00-1F 80-FF E01:F0-E0F:FF"]

/-- Characters that extend the one before them. -/
def extendRanges : List (Nat × Nat) := rangesOf [
  "3:00-6F 4:83-89 5:91-BD BF C1-C2 C4-C5 C7 6:10-1A 4B-5F 70 D6-DC DF-E4 E7-E8 EA-ED 7:11 30-4A A6-B0 EB-F3 FD",
  "8:16-19 1B-23 25-27 29-2D 59-5B 98-9F CA-E1 E3-9:02 3A 3C 41-48 4D 51-57 62-63 81 BC BE C1-C4 CD D7 E2-E3 FE",
  "A:01-02 3C 41-42 47-48 4B-4D 51 70-71 75 81-82 BC C1-C5 C7-C8 CD E2-E3 FA-FF B:01 3C 3E-3F 41-44 4D 55-57",
  "B:62-63 82 BE C0 CD D7 C:00 04 3C 3E-40 46-48 4A-4D 55-56 62-63 81 BC BF C2 C6 CC-CD D5-D6 E2-E3 D:00-01",
  "D:3B-3C 3E 41-44 4D 57 62-63 81 CA CF D2-D4 D6 DF E:31 34-3A 47-4E B1 B4-BC C8-CE F:18-19 35 37 39 71-7E",
  "F:80-84 86-87 8D-97 99-BC C6 10:2D-30 32-37 39-3A 3D-3E 58-59 5E-60 71-74 82 85-86 8D 9D 13:5D-5F 17:12-14",
  "17:32-33 52-53 72-73 B4-B5 B7-BD C6 C9-D3 DD 18:0B-0D 0F 85-86 A9 19:20-22 27-28 32 39-3B 1A:17-18 1B 56",
  "1A:58-5E 60 62 65-6C 73-7C 7F B0-CE 1B:00-03 34-3A 3C 42 6B-73 80-81 A2-A5 A8-A9 AB-AD E6 E8-E9 ED EF-F1",
  "1C:2C-33 36-37 D0-D2 D4-E0 E2-E8 ED F4 F8-F9 1D:C0-FF 20:0C D0-F0 2C:EF-F1 2D:7F E0-FF 30:2A-2F 99-9A",
  "A6:6F-72 74-7D 9E-9F F0-F1 A8:02 06 0B 25-26 2C C4-C5 E0-F1 FF A9:26-2D 47-51 80-82 B3 B6-B9 BC-BD E5",
  "AA:29-2E 31-32 35-36 43 4C 7C B0 B2-B4 B7-B8 BE-BF C1 EC-ED F6 AB:E5 E8 ED FB:1E FE:00-0F 20-2F FF:9E-9F",
  "101:FD 102:E0 103:76-7A 10A:01-03 05-06 0C-0F 38-3A 3F E5-E6 10D:24-27 10E:AB-AC FD-FF 10F:46-50 82-85",
  "110:01 38-46 70 73-74 7F-81 B3-B6 B9-BA C2 111:00-02 27-2B 2D-34 73 80-81 B6-BE C9-CC CF 112:2F-31 34 36-37",
  "112:3E 41 DF E3-EA 113:00-01 3B-3C 3E 40 57 66-6C 70-74 114:38-3F 42-44 46 5E B0 B3-B8 BA BD BF-C0 C2-C3",
  "115:AF B2-B5 BC-BD BF-C0 DC-DD 116:33-3A 3D 3F-40 AB AD B0-B5 B7 117:1D-1F 22-25 27-2B 118:2F-37 39-3A",
  "119:30 3B-3C 3E 43 D4-D7 DA-DB E0 11A:01-0A 33-38 3B-3E 47 51-56 59-5B 8A-96 98-99 11C:30-36 38-3D 3F 92-A7",
  "11C:AA-B0 B2-B3 B5-B6 11D:31-36 3A 3C-3D 3F-45 47 90-91 95 97 11E:F3-F4 11F:00-01 36-3A 40 42 134:40 47-55",
  "16A:F0-F4 16B:30-36 16F:4F 8F-92 E4 1BC:9D-9E 1CF:00-2D 30-46 1D1:65 67-69 6E-72 7B-82 85-8B AA-AD 1D2:42-44",
  "1DA:00-36 3B-6C 75 84 9B-9F A1-AF 1E0:00-06 08-18 1B-21 23-24 26-2A 8F 1E1:30-36 1E2:AE EC-EF 1E4:EC-EF",
  "1E8:D0-D6 1E9:44-4A 1F3:FB-FF E00:20-7F E01:00-EF"]

def spacingRanges : List (Nat × Nat) := rangesOf [
  "9:03 3B 3E-40 49-4C 4E-4F 82-83 BF-C0 C7-C8 CB-CC A:03 3E-40 83 BE-C0 C9 CB-CC B:02-03 40 47-48 4B-4C BF",
  "B:C1-C2 C6-C8 CA-CC C:01-03 41-44 82-83 BE C0-C1 C3-C4 C7-C8 CA-CB F3 D:02-03 3F-40 46-48 4A-4C 82-83 D0-D1",
  "D:D8-DE F2-F3 E:33 B3 F:3E-3F 7F 10:31 3B-3C 56-57 84 17:15 34 B6 BE-C5 C7-C8 19:23-26 29-2B 30-31 33-38",
  "1A:19-1A 55 57 6D-72 1B:04 3B 3D-41 43-44 82 A1 A6-A7 AA E7 EA-EC EE F2-F3 1C:24-2B 34-35 E1 F7 A8:23-24 27",
  "A8:80-81 B4-C3 A9:52-53 83 B4-B5 BA-BB BE-C0 AA:2F-30 33-34 4D EB EE-EF F5 AB:E3-E4 E6-E7 E9-EA EC 110:00 02",
  "110:82 B0-B2 B7-B8 111:2C 45-46 82 B3-B5 BF-C0 CE 112:2C-2E 32-33 35 E0-E2 113:02-03 3F 41-44 47-48 4B-4D",
  "113:62-63 114:35-37 40-41 45 B1-B2 B9 BB-BC BE C1 115:B0-B1 B8-BB BE 116:30-32 3B-3C 3E AC AE-AF B6 117:26",
  "118:2C-2E 38 119:31-35 37-38 3D 40 42 D1-D3 DC-DF E4 11A:39 57-58 97 11C:2F 3E A9 B1 B4 11D:8A-8E 93-94 96",
  "11E:F5-F6 11F:03 34-35 3E-3F 41 16F:51-87 F0-F1 1D1:66 6D"]

/-- Characters that join the one after them. -/
def prependedRanges : List (Nat × Nat) :=
  rangesOf ["6:00-05 DD 7:0F 8:90-91 E2 D:4E 110:BD CD 111:C2-C3 119:3F 41 11A:3A 84-89 11D:46 11F:02"]

def pictographRanges : List (Nat × Nat) := rangesOf [
  "0:A9 AE 20:3C 49 21:22 39 94-99 A9-AA 23:1A-1B 28 88 CF E9-F3 F8-FA 24:C2 25:AA-AB B6 C0 FB-FE 26:00-05",
  "26:07-12 14-85 90-27:05 08-12 14 16 1D 21 28 33-34 44 47 4C 4E 53-55 57 63-67 95-97 A1 B0 BF 29:34-35",
  "2B:05-07 1B-1C 50 55 30:30 3D 32:97 99 1F0:00-FF 1F1:0D-0F 2F 6C-71 7E-7F 8E 91-9A AD-E5 1F2:01-0F 1A 2F",
  "1F2:32-3A 3C-3F 49-1F3:FA 1F4:00-1F5:3D 46-1F6:4F 80-FF 1F7:74-7F D5-FF 1F8:0C-0F 48-4F 5A-5F 88-8F AE-FF",
  "1F9:0C-3A 3C-45 47-1FA:FF 1FC:00-1FF:FD"]

def clusterClass (c : Char) : ClusterClass :=
  let code := c.toNat
  if code == 0x0D then .cr
  else if code == 0x0A then .lf
  else if code < 0x7F && 0x20 ≤ code then .other
  else if code == 0x200D then .joiner
  else if 0x1F1E6 ≤ code && code ≤ 0x1F1FF then .regional
  else if (0x1100 ≤ code && code ≤ 0x115F) || (0xA960 ≤ code && code ≤ 0xA97C) then .leadingJamo
  else if (0x1160 ≤ code && code ≤ 0x11A7) || (0xD7B0 ≤ code && code ≤ 0xD7C6) then .vowelJamo
  else if (0x11A8 ≤ code && code ≤ 0x11FF) || (0xD7CB ≤ code && code ≤ 0xD7FB) then .trailingJamo
  else if 0xAC00 ≤ code && code ≤ 0xD7A3 then
    if (code - 0xAC00) % 28 == 0 then .openSyllable else .closedSyllable
  else if inRanges controlRanges code then .control
  else if inRanges extendRanges code then .extend
  else if inRanges spacingRanges code then .spacing
  else if inRanges prependedRanges code then .prepended
  else if inRanges pictographRanges code then .pictograph
  else .other

end Peano.Text
