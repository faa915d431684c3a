import SelfOlm.Crypto

/-! # The bundled AES

    `lib/crypto-algorithms/aes.c`: key expansion and both directions for one block,
    with its three tables.  The state is the source's matrix of four rows; loops that
    the source has unrolled are written over the row or the column they are unrolled
    for.  The modes of operation of the library are not used, since `crypto.cpp`
    has its own. -/

namespace OlmAes

open OlmCrypto

/-! ## Tables -/

/-- `aes_sbox`: the first nibble is the row, the second one the column. -/
def aesSbox : Vector (Vector UInt8 16) 16 := #v[
  #v[0x63, 0x7c, 0x77, 0x7b, 0xf2, 0x6b, 0x6f, 0xc5, 0x30, 0x01, 0x67, 0x2b, 0xfe, 0xd7, 0xab, 0x76],
  #v[0xca, 0x82, 0xc9, 0x7d, 0xfa, 0x59, 0x47, 0xf0, 0xad, 0xd4, 0xa2, 0xaf, 0x9c, 0xa4, 0x72, 0xc0],
  #v[0xb7, 0xfd, 0x93, 0x26, 0x36, 0x3f, 0xf7, 0xcc, 0x34, 0xa5, 0xe5, 0xf1, 0x71, 0xd8, 0x31, 0x15],
  #v[0x04, 0xc7, 0x23, 0xc3, 0x18, 0x96, 0x05, 0x9a, 0x07, 0x12, 0x80, 0xe2, 0xeb, 0x27, 0xb2, 0x75],
  #v[0x09, 0x83, 0x2c, 0x1a, 0x1b, 0x6e, 0x5a, 0xa0, 0x52, 0x3b, 0xd6, 0xb3, 0x29, 0xe3, 0x2f, 0x84],
  #v[0x53, 0xd1, 0x00, 0xed, 0x20, 0xfc, 0xb1, 0x5b, 0x6a, 0xcb, 0xbe, 0x39, 0x4a, 0x4c, 0x58, 0xcf],
  #v[0xd0, 0xef, 0xaa, 0xfb, 0x43, 0x4d, 0x33, 0x85, 0x45, 0xf9, 0x02, 0x7f, 0x50, 0x3c, 0x9f, 0xa8],
  #v[0x51, 0xa3, 0x40, 0x8f, 0x92, 0x9d, 0x38, 0xf5, 0xbc, 0xb6, 0xda, 0x21, 0x10, 0xff, 0xf3, 0xd2],
  #v[0xcd, 0x0c, 0x13, 0xec, 0x5f, 0x97, 0x44, 0x17, 0xc4, 0xa7, 0x7e, 0x3d, 0x64, 0x5d, 0x19, 0x73],
  #v[0x60, 0x81, 0x4f, 0xdc, 0x22, 0x2a, 0x90, 0x88, 0x46, 0xee, 0xb8, 0x14, 0xde, 0x5e, 0x0b, 0xdb],
  #v[0xe0, 0x32, 0x3a, 0x0a, 0x49, 0x06, 0x24, 0x5c, 0xc2, 0xd3, 0xac, 0x62, 0x91, 0x95, 0xe4, 0x79],
  #v[0xe7, 0xc8, 0x37, 0x6d, 0x8d, 0xd5, 0x4e, 0xa9, 0x6c, 0x56, 0xf4, 0xea, 0x65, 0x7a, 0xae, 0x08],
  #v[0xba, 0x78, 0x25, 0x2e, 0x1c, 0xa6, 0xb4, 0xc6, 0xe8, 0xdd, 0x74, 0x1f, 0x4b, 0xbd, 0x8b, 0x8a],
  #v[0x70, 0x3e, 0xb5, 0x66, 0x48, 0x03, 0xf6, 0x0e, 0x61, 0x35, 0x57, 0xb9, 0x86, 0xc1, 0x1d, 0x9e],
  #v[0xe1, 0xf8, 0x98, 0x11, 0x69, 0xd9, 0x8e, 0x94, 0x9b, 0x1e, 0x87, 0xe9, 0xce, 0x55, 0x28, 0xdf],
  #v[0x8c, 0xa1, 0x89, 0x0d, 0xbf, 0xe6, 0x42, 0x68, 0x41, 0x99, 0x2d, 0x0f, 0xb0, 0x54, 0xbb, 0x16]]

/-- `aes_invsbox`. -/
def aesInvsbox : Vector (Vector UInt8 16) 16 := #v[
  #v[0x52, 0x09, 0x6a, 0xd5, 0x30, 0x36, 0xa5, 0x38, 0xbf, 0x40, 0xa3, 0x9e, 0x81, 0xf3, 0xd7, 0xfb],
  #v[0x7c, 0xe3, 0x39, 0x82, 0x9b, 0x2f, 0xff, 0x87, 0x34, 0x8e, 0x43, 0x44, 0xc4, 0xde, 0xe9, 0xcb],
  #v[0x54, 0x7b, 0x94, 0x32, 0xa6, 0xc2, 0x23, 0x3d, 0xee, 0x4c, 0x95, 0x0b, 0x42, 0xfa, 0xc3, 0x4e],
  #v[0x08, 0x2e, 0xa1, 0x66, 0x28, 0xd9, 0x24, 0xb2, 0x76, 0x5b, 0xa2, 0x49, 0x6d, 0x8b, 0xd1, 0x25],
  #v[0x72, 0xf8, 0xf6, 0x64, 0x86, 0x68, 0x98, 0x16, 0xd4, 0xa4, 0x5c, 0xcc, 0x5d, 0x65, 0xb6, 0x92],
  #v[0x6c, 0x70, 0x48, 0x50, 0xfd, 0xed, 0xb9, 0xda, 0x5e, 0x15, 0x46, 0x57, 0xa7, 0x8d, 0x9d, 0x84],
  #v[0x90, 0xd8, 0xab, 0x00, 0x8c, 0xbc, 0xd3, 0x0a, 0xf7, 0xe4, 0x58, 0x05, 0xb8, 0xb3, 0x45, 0x06],
  #v[0xd0, 0x2c, 0x1e, 0x8f, 0xca, 0x3f, 0x0f, 0x02, 0xc1, 0xaf, 0xbd, 0x03, 0x01, 0x13, 0x8a, 0x6b],
  #v[0x3a, 0x91, 0x11, 0x41, 0x4f, 0x67, 0xdc, 0xea, 0x97, 0xf2, 0xcf, 0xce, 0xf0, 0xb4, 0xe6, 0x73],
  #v[0x96, 0xac, 0x74, 0x22, 0xe7, 0xad, 0x35, 0x85, 0xe2, 0xf9, 0x37, 0xe8, 0x1c, 0x75, 0xdf, 0x6e],
  #v[0x47, 0xf1, 0x1a, 0x71, 0x1d, 0x29, 0xc5, 0x89, 0x6f, 0xb7, 0x62, 0x0e, 0xaa, 0x18, 0xbe, 0x1b],
  #v[0xfc, 0x56, 0x3e, 0x4b, 0xc6, 0xd2, 0x79, 0x20, 0x9a, 0xdb, 0xc0, 0xfe, 0x78, 0xcd, 0x5a, 0xf4],
  #v[0x1f, 0xdd, 0xa8, 0x33, 0x88, 0x07, 0xc7, 0x31, 0xb1, 0x12, 0x10, 0x59, 0x27, 0x80, 0xec, 0x5f],
  #v[0x60, 0x51, 0x7f, 0xa9, 0x19, 0xb5, 0x4a, 0x0d, 0x2d, 0xe5, 0x7a, 0x9f, 0x93, 0xc9, 0x9c, 0xef],
  #v[0xa0, 0xe0, 0x3b, 0x4d, 0xae, 0x2a, 0xf5, 0xb0, 0xc8, 0xeb, 0xbb, 0x3c, 0x83, 0x53, 0x99, 0x61],
  #v[0x17, 0x2b, 0x04, 0x7e, 0xba, 0x77, 0xd6, 0x26, 0xe1, 0x69, 0x14, 0x63, 0x55, 0x21, 0x0c, 0x7d]]

set_option maxRecDepth 4000 in
/-- `gf_mul`: a byte times `2`, `3`, `9`, `b`, `d` and `e`. -/
def gfMul : Vector (Vector UInt8 6) 256 := #v[
  #v[0x00, 0x00, 0x00, 0x00, 0x00, 0x00], #v[0x02, 0x03, 0x09, 0x0b, 0x0d, 0x0e],
  #v[0x04, 0x06, 0x12, 0x16, 0x1a, 0x1c], #v[0x06, 0x05, 0x1b, 0x1d, 0x17, 0x12],
  #v[0x08, 0x0c, 0x24, 0x2c, 0x34, 0x38], #v[0x0a, 0x0f, 0x2d, 0x27, 0x39, 0x36],
  #v[0x0c, 0x0a, 0x36, 0x3a, 0x2e, 0x24], #v[0x0e, 0x09, 0x3f, 0x31, 0x23, 0x2a],
  #v[0x10, 0x18, 0x48, 0x58, 0x68, 0x70], #v[0x12, 0x1b, 0x41, 0x53, 0x65, 0x7e],
  #v[0x14, 0x1e, 0x5a, 0x4e, 0x72, 0x6c], #v[0x16, 0x1d, 0x53, 0x45, 0x7f, 0x62],
  #v[0x18, 0x14, 0x6c, 0x74, 0x5c, 0x48], #v[0x1a, 0x17, 0x65, 0x7f, 0x51, 0x46],
  #v[0x1c, 0x12, 0x7e, 0x62, 0x46, 0x54], #v[0x1e, 0x11, 0x77, 0x69, 0x4b, 0x5a],
  #v[0x20, 0x30, 0x90, 0xb0, 0xd0, 0xe0], #v[0x22, 0x33, 0x99, 0xbb, 0xdd, 0xee],
  #v[0x24, 0x36, 0x82, 0xa6, 0xca, 0xfc], #v[0x26, 0x35, 0x8b, 0xad, 0xc7, 0xf2],
  #v[0x28, 0x3c, 0xb4, 0x9c, 0xe4, 0xd8], #v[0x2a, 0x3f, 0xbd, 0x97, 0xe9, 0xd6],
  #v[0x2c, 0x3a, 0xa6, 0x8a, 0xfe, 0xc4], #v[0x2e, 0x39, 0xaf, 0x81, 0xf3, 0xca],
  #v[0x30, 0x28, 0xd8, 0xe8, 0xb8, 0x90], #v[0x32, 0x2b, 0xd1, 0xe3, 0xb5, 0x9e],
  #v[0x34, 0x2e, 0xca, 0xfe, 0xa2, 0x8c], #v[0x36, 0x2d, 0xc3, 0xf5, 0xaf, 0x82],
  #v[0x38, 0x24, 0xfc, 0xc4, 0x8c, 0xa8], #v[0x3a, 0x27, 0xf5, 0xcf, 0x81, 0xa6],
  #v[0x3c, 0x22, 0xee, 0xd2, 0x96, 0xb4], #v[0x3e, 0x21, 0xe7, 0xd9, 0x9b, 0xba],
  #v[0x40, 0x60, 0x3b, 0x7b, 0xbb, 0xdb], #v[0x42, 0x63, 0x32, 0x70, 0xb6, 0xd5],
  #v[0x44, 0x66, 0x29, 0x6d, 0xa1, 0xc7], #v[0x46, 0x65, 0x20, 0x66, 0xac, 0xc9],
  #v[0x48, 0x6c, 0x1f, 0x57, 0x8f, 0xe3], #v[0x4a, 0x6f, 0x16, 0x5c, 0x82, 0xed],
  #v[0x4c, 0x6a, 0x0d, 0x41, 0x95, 0xff], #v[0x4e, 0x69, 0x04, 0x4a, 0x98, 0xf1],
  #v[0x50, 0x78, 0x73, 0x23, 0xd3, 0xab], #v[0x52, 0x7b, 0x7a, 0x28, 0xde, 0xa5],
  #v[0x54, 0x7e, 0x61, 0x35, 0xc9, 0xb7], #v[0x56, 0x7d, 0x68, 0x3e, 0xc4, 0xb9],
  #v[0x58, 0x74, 0x57, 0x0f, 0xe7, 0x93], #v[0x5a, 0x77, 0x5e, 0x04, 0xea, 0x9d],
  #v[0x5c, 0x72, 0x45, 0x19, 0xfd, 0x8f], #v[0x5e, 0x71, 0x4c, 0x12, 0xf0, 0x81],
  #v[0x60, 0x50, 0xab, 0xcb, 0x6b, 0x3b], #v[0x62, 0x53, 0xa2, 0xc0, 0x66, 0x35],
  #v[0x64, 0x56, 0xb9, 0xdd, 0x71, 0x27], #v[0x66, 0x55, 0xb0, 0xd6, 0x7c, 0x29],
  #v[0x68, 0x5c, 0x8f, 0xe7, 0x5f, 0x03], #v[0x6a, 0x5f, 0x86, 0xec, 0x52, 0x0d],
  #v[0x6c, 0x5a, 0x9d, 0xf1, 0x45, 0x1f], #v[0x6e, 0x59, 0x94, 0xfa, 0x48, 0x11],
  #v[0x70, 0x48, 0xe3, 0x93, 0x03, 0x4b], #v[0x72, 0x4b, 0xea, 0x98, 0x0e, 0x45],
  #v[0x74, 0x4e, 0xf1, 0x85, 0x19, 0x57], #v[0x76, 0x4d, 0xf8, 0x8e, 0x14, 0x59],
  #v[0x78, 0x44, 0xc7, 0xbf, 0x37, 0x73], #v[0x7a, 0x47, 0xce, 0xb4, 0x3a, 0x7d],
  #v[0x7c, 0x42, 0xd5, 0xa9, 0x2d, 0x6f], #v[0x7e, 0x41, 0xdc, 0xa2, 0x20, 0x61],
  #v[0x80, 0xc0, 0x76, 0xf6, 0x6d, 0xad], #v[0x82, 0xc3, 0x7f, 0xfd, 0x60, 0xa3],
  #v[0x84, 0xc6, 0x64, 0xe0, 0x77, 0xb1], #v[0x86, 0xc5, 0x6d, 0xeb, 0x7a, 0xbf],
  #v[0x88, 0xcc, 0x52, 0xda, 0x59, 0x95], #v[0x8a, 0xcf, 0x5b, 0xd1, 0x54, 0x9b],
  #v[0x8c, 0xca, 0x40, 0xcc, 0x43, 0x89], #v[0x8e, 0xc9, 0x49, 0xc7, 0x4e, 0x87],
  #v[0x90, 0xd8, 0x3e, 0xae, 0x05, 0xdd], #v[0x92, 0xdb, 0x37, 0xa5, 0x08, 0xd3],
  #v[0x94, 0xde, 0x2c, 0xb8, 0x1f, 0xc1], #v[0x96, 0xdd, 0x25, 0xb3, 0x12, 0xcf],
  #v[0x98, 0xd4, 0x1a, 0x82, 0x31, 0xe5], #v[0x9a, 0xd7, 0x13, 0x89, 0x3c, 0xeb],
  #v[0x9c, 0xd2, 0x08, 0x94, 0x2b, 0xf9], #v[0x9e, 0xd1, 0x01, 0x9f, 0x26, 0xf7],
  #v[0xa0, 0xf0, 0xe6, 0x46, 0xbd, 0x4d], #v[0xa2, 0xf3, 0xef, 0x4d, 0xb0, 0x43],
  #v[0xa4, 0xf6, 0xf4, 0x50, 0xa7, 0x51], #v[0xa6, 0xf5, 0xfd, 0x5b, 0xaa, 0x5f],
  #v[0xa8, 0xfc, 0xc2, 0x6a, 0x89, 0x75], #v[0xaa, 0xff, 0xcb, 0x61, 0x84, 0x7b],
  #v[0xac, 0xfa, 0xd0, 0x7c, 0x93, 0x69], #v[0xae, 0xf9, 0xd9, 0x77, 0x9e, 0x67],
  #v[0xb0, 0xe8, 0xae, 0x1e, 0xd5, 0x3d], #v[0xb2, 0xeb, 0xa7, 0x15, 0xd8, 0x33],
  #v[0xb4, 0xee, 0xbc, 0x08, 0xcf, 0x21], #v[0xb6, 0xed, 0xb5, 0x03, 0xc2, 0x2f],
  #v[0xb8, 0xe4, 0x8a, 0x32, 0xe1, 0x05], #v[0xba, 0xe7, 0x83, 0x39, 0xec, 0x0b],
  #v[0xbc, 0xe2, 0x98, 0x24, 0xfb, 0x19], #v[0xbe, 0xe1, 0x91, 0x2f, 0xf6, 0x17],
  #v[0xc0, 0xa0, 0x4d, 0x8d, 0xd6, 0x76], #v[0xc2, 0xa3, 0x44, 0x86, 0xdb, 0x78],
  #v[0xc4, 0xa6, 0x5f, 0x9b, 0xcc, 0x6a], #v[0xc6, 0xa5, 0x56, 0x90, 0xc1, 0x64],
  #v[0xc8, 0xac, 0x69, 0xa1, 0xe2, 0x4e], #v[0xca, 0xaf, 0x60, 0xaa, 0xef, 0x40],
  #v[0xcc, 0xaa, 0x7b, 0xb7, 0xf8, 0x52], #v[0xce, 0xa9, 0x72, 0xbc, 0xf5, 0x5c],
  #v[0xd0, 0xb8, 0x05, 0xd5, 0xbe, 0x06], #v[0xd2, 0xbb, 0x0c, 0xde, 0xb3, 0x08],
  #v[0xd4, 0xbe, 0x17, 0xc3, 0xa4, 0x1a], #v[0xd6, 0xbd, 0x1e, 0xc8, 0xa9, 0x14],
  #v[0xd8, 0xb4, 0x21, 0xf9, 0x8a, 0x3e], #v[0xda, 0xb7, 0x28, 0xf2, 0x87, 0x30],
  #v[0xdc, 0xb2, 0x33, 0xef, 0x90, 0x22], #v[0xde, 0xb1, 0x3a, 0xe4, 0x9d, 0x2c],
  #v[0xe0, 0x90, 0xdd, 0x3d, 0x06, 0x96], #v[0xe2, 0x93, 0xd4, 0x36, 0x0b, 0x98],
  #v[0xe4, 0x96, 0xcf, 0x2b, 0x1c, 0x8a], #v[0xe6, 0x95, 0xc6, 0x20, 0x11, 0x84],
  #v[0xe8, 0x9c, 0xf9, 0x11, 0x32, 0xae], #v[0xea, 0x9f, 0xf0, 0x1a, 0x3f, 0xa0],
  #v[0xec, 0x9a, 0xeb, 0x07, 0x28, 0xb2], #v[0xee, 0x99, 0xe2, 0x0c, 0x25, 0xbc],
  #v[0xf0, 0x88, 0x95, 0x65, 0x6e, 0xe6], #v[0xf2, 0x8b, 0x9c, 0x6e, 0x63, 0xe8],
  #v[0xf4, 0x8e, 0x87, 0x73, 0x74, 0xfa], #v[0xf6, 0x8d, 0x8e, 0x78, 0x79, 0xf4],
  #v[0xf8, 0x84, 0xb1, 0x49, 0x5a, 0xde], #v[0xfa, 0x87, 0xb8, 0x42, 0x57, 0xd0],
  #v[0xfc, 0x82, 0xa3, 0x5f, 0x40, 0xc2], #v[0xfe, 0x81, 0xaa, 0x54, 0x4d, 0xcc],
  #v[0x1b, 0x9b, 0xec, 0xf7, 0xda, 0x41], #v[0x19, 0x98, 0xe5, 0xfc, 0xd7, 0x4f],
  #v[0x1f, 0x9d, 0xfe, 0xe1, 0xc0, 0x5d], #v[0x1d, 0x9e, 0xf7, 0xea, 0xcd, 0x53],
  #v[0x13, 0x97, 0xc8, 0xdb, 0xee, 0x79], #v[0x11, 0x94, 0xc1, 0xd0, 0xe3, 0x77],
  #v[0x17, 0x91, 0xda, 0xcd, 0xf4, 0x65], #v[0x15, 0x92, 0xd3, 0xc6, 0xf9, 0x6b],
  #v[0x0b, 0x83, 0xa4, 0xaf, 0xb2, 0x31], #v[0x09, 0x80, 0xad, 0xa4, 0xbf, 0x3f],
  #v[0x0f, 0x85, 0xb6, 0xb9, 0xa8, 0x2d], #v[0x0d, 0x86, 0xbf, 0xb2, 0xa5, 0x23],
  #v[0x03, 0x8f, 0x80, 0x83, 0x86, 0x09], #v[0x01, 0x8c, 0x89, 0x88, 0x8b, 0x07],
  #v[0x07, 0x89, 0x92, 0x95, 0x9c, 0x15], #v[0x05, 0x8a, 0x9b, 0x9e, 0x91, 0x1b],
  #v[0x3b, 0xab, 0x7c, 0x47, 0x0a, 0xa1], #v[0x39, 0xa8, 0x75, 0x4c, 0x07, 0xaf],
  #v[0x3f, 0xad, 0x6e, 0x51, 0x10, 0xbd], #v[0x3d, 0xae, 0x67, 0x5a, 0x1d, 0xb3],
  #v[0x33, 0xa7, 0x58, 0x6b, 0x3e, 0x99], #v[0x31, 0xa4, 0x51, 0x60, 0x33, 0x97],
  #v[0x37, 0xa1, 0x4a, 0x7d, 0x24, 0x85], #v[0x35, 0xa2, 0x43, 0x76, 0x29, 0x8b],
  #v[0x2b, 0xb3, 0x34, 0x1f, 0x62, 0xd1], #v[0x29, 0xb0, 0x3d, 0x14, 0x6f, 0xdf],
  #v[0x2f, 0xb5, 0x26, 0x09, 0x78, 0xcd], #v[0x2d, 0xb6, 0x2f, 0x02, 0x75, 0xc3],
  #v[0x23, 0xbf, 0x10, 0x33, 0x56, 0xe9], #v[0x21, 0xbc, 0x19, 0x38, 0x5b, 0xe7],
  #v[0x27, 0xb9, 0x02, 0x25, 0x4c, 0xf5], #v[0x25, 0xba, 0x0b, 0x2e, 0x41, 0xfb],
  #v[0x5b, 0xfb, 0xd7, 0x8c, 0x61, 0x9a], #v[0x59, 0xf8, 0xde, 0x87, 0x6c, 0x94],
  #v[0x5f, 0xfd, 0xc5, 0x9a, 0x7b, 0x86], #v[0x5d, 0xfe, 0xcc, 0x91, 0x76, 0x88],
  #v[0x53, 0xf7, 0xf3, 0xa0, 0x55, 0xa2], #v[0x51, 0xf4, 0xfa, 0xab, 0x58, 0xac],
  #v[0x57, 0xf1, 0xe1, 0xb6, 0x4f, 0xbe], #v[0x55, 0xf2, 0xe8, 0xbd, 0x42, 0xb0],
  #v[0x4b, 0xe3, 0x9f, 0xd4, 0x09, 0xea], #v[0x49, 0xe0, 0x96, 0xdf, 0x04, 0xe4],
  #v[0x4f, 0xe5, 0x8d, 0xc2, 0x13, 0xf6], #v[0x4d, 0xe6, 0x84, 0xc9, 0x1e, 0xf8],
  #v[0x43, 0xef, 0xbb, 0xf8, 0x3d, 0xd2], #v[0x41, 0xec, 0xb2, 0xf3, 0x30, 0xdc],
  #v[0x47, 0xe9, 0xa9, 0xee, 0x27, 0xce], #v[0x45, 0xea, 0xa0, 0xe5, 0x2a, 0xc0],
  #v[0x7b, 0xcb, 0x47, 0x3c, 0xb1, 0x7a], #v[0x79, 0xc8, 0x4e, 0x37, 0xbc, 0x74],
  #v[0x7f, 0xcd, 0x55, 0x2a, 0xab, 0x66], #v[0x7d, 0xce, 0x5c, 0x21, 0xa6, 0x68],
  #v[0x73, 0xc7, 0x63, 0x10, 0x85, 0x42], #v[0x71, 0xc4, 0x6a, 0x1b, 0x88, 0x4c],
  #v[0x77, 0xc1, 0x71, 0x06, 0x9f, 0x5e], #v[0x75, 0xc2, 0x78, 0x0d, 0x92, 0x50],
  #v[0x6b, 0xd3, 0x0f, 0x64, 0xd9, 0x0a], #v[0x69, 0xd0, 0x06, 0x6f, 0xd4, 0x04],
  #v[0x6f, 0xd5, 0x1d, 0x72, 0xc3, 0x16], #v[0x6d, 0xd6, 0x14, 0x79, 0xce, 0x18],
  #v[0x63, 0xdf, 0x2b, 0x48, 0xed, 0x32], #v[0x61, 0xdc, 0x22, 0x43, 0xe0, 0x3c],
  #v[0x67, 0xd9, 0x39, 0x5e, 0xf7, 0x2e], #v[0x65, 0xda, 0x30, 0x55, 0xfa, 0x20],
  #v[0x9b, 0x5b, 0x9a, 0x01, 0xb7, 0xec], #v[0x99, 0x58, 0x93, 0x0a, 0xba, 0xe2],
  #v[0x9f, 0x5d, 0x88, 0x17, 0xad, 0xf0], #v[0x9d, 0x5e, 0x81, 0x1c, 0xa0, 0xfe],
  #v[0x93, 0x57, 0xbe, 0x2d, 0x83, 0xd4], #v[0x91, 0x54, 0xb7, 0x26, 0x8e, 0xda],
  #v[0x97, 0x51, 0xac, 0x3b, 0x99, 0xc8], #v[0x95, 0x52, 0xa5, 0x30, 0x94, 0xc6],
  #v[0x8b, 0x43, 0xd2, 0x59, 0xdf, 0x9c], #v[0x89, 0x40, 0xdb, 0x52, 0xd2, 0x92],
  #v[0x8f, 0x45, 0xc0, 0x4f, 0xc5, 0x80], #v[0x8d, 0x46, 0xc9, 0x44, 0xc8, 0x8e],
  #v[0x83, 0x4f, 0xf6, 0x75, 0xeb, 0xa4], #v[0x81, 0x4c, 0xff, 0x7e, 0xe6, 0xaa],
  #v[0x87, 0x49, 0xe4, 0x63, 0xf1, 0xb8], #v[0x85, 0x4a, 0xed, 0x68, 0xfc, 0xb6],
  #v[0xbb, 0x6b, 0x0a, 0xb1, 0x67, 0x0c], #v[0xb9, 0x68, 0x03, 0xba, 0x6a, 0x02],
  #v[0xbf, 0x6d, 0x18, 0xa7, 0x7d, 0x10], #v[0xbd, 0x6e, 0x11, 0xac, 0x70, 0x1e],
  #v[0xb3, 0x67, 0x2e, 0x9d, 0x53, 0x34], #v[0xb1, 0x64, 0x27, 0x96, 0x5e, 0x3a],
  #v[0xb7, 0x61, 0x3c, 0x8b, 0x49, 0x28], #v[0xb5, 0x62, 0x35, 0x80, 0x44, 0x26],
  #v[0xab, 0x73, 0x42, 0xe9, 0x0f, 0x7c], #v[0xa9, 0x70, 0x4b, 0xe2, 0x02, 0x72],
  #v[0xaf, 0x75, 0x50, 0xff, 0x15, 0x60], #v[0xad, 0x76, 0x59, 0xf4, 0x18, 0x6e],
  #v[0xa3, 0x7f, 0x66, 0xc5, 0x3b, 0x44], #v[0xa1, 0x7c, 0x6f, 0xce, 0x36, 0x4a],
  #v[0xa7, 0x79, 0x74, 0xd3, 0x21, 0x58], #v[0xa5, 0x7a, 0x7d, 0xd8, 0x2c, 0x56],
  #v[0xdb, 0x3b, 0xa1, 0x7a, 0x0c, 0x37], #v[0xd9, 0x38, 0xa8, 0x71, 0x01, 0x39],
  #v[0xdf, 0x3d, 0xb3, 0x6c, 0x16, 0x2b], #v[0xdd, 0x3e, 0xba, 0x67, 0x1b, 0x25],
  #v[0xd3, 0x37, 0x85, 0x56, 0x38, 0x0f], #v[0xd1, 0x34, 0x8c, 0x5d, 0x35, 0x01],
  #v[0xd7, 0x31, 0x97, 0x40, 0x22, 0x13], #v[0xd5, 0x32, 0x9e, 0x4b, 0x2f, 0x1d],
  #v[0xcb, 0x23, 0xe9, 0x22, 0x64, 0x47], #v[0xc9, 0x20, 0xe0, 0x29, 0x69, 0x49],
  #v[0xcf, 0x25, 0xfb, 0x34, 0x7e, 0x5b], #v[0xcd, 0x26, 0xf2, 0x3f, 0x73, 0x55],
  #v[0xc3, 0x2f, 0xcd, 0x0e, 0x50, 0x7f], #v[0xc1, 0x2c, 0xc4, 0x05, 0x5d, 0x71],
  #v[0xc7, 0x29, 0xdf, 0x18, 0x4a, 0x63], #v[0xc5, 0x2a, 0xd6, 0x13, 0x47, 0x6d],
  #v[0xfb, 0x0b, 0x31, 0xca, 0xdc, 0xd7], #v[0xf9, 0x08, 0x38, 0xc1, 0xd1, 0xd9],
  #v[0xff, 0x0d, 0x23, 0xdc, 0xc6, 0xcb], #v[0xfd, 0x0e, 0x2a, 0xd7, 0xcb, 0xc5],
  #v[0xf3, 0x07, 0x15, 0xe6, 0xe8, 0xef], #v[0xf1, 0x04, 0x1c, 0xed, 0xe5, 0xe1],
  #v[0xf7, 0x01, 0x07, 0xf0, 0xf2, 0xf3], #v[0xf5, 0x02, 0x0e, 0xfb, 0xff, 0xfd],
  #v[0xeb, 0x13, 0x79, 0x92, 0xb4, 0xa7], #v[0xe9, 0x10, 0x70, 0x99, 0xb9, 0xa9],
  #v[0xef, 0x15, 0x6b, 0x84, 0xae, 0xbb], #v[0xed, 0x16, 0x62, 0x8f, 0xa3, 0xb5],
  #v[0xe3, 0x1f, 0x5d, 0xbe, 0x80, 0x9f], #v[0xe1, 0x1c, 0x54, 0xb5, 0x8d, 0x91],
  #v[0xe7, 0x19, 0x4f, 0xa8, 0x9a, 0x83], #v[0xe5, 0x1a, 0x46, 0xa3, 0x97, 0x8d]]

/-! ## Lookups -/

/-- The first and the second nibble of a byte. -/
def highNibble (b : UInt8) : Fin 16 :=
  ⟨(b >>> 4).toNat, by
    rw [UInt8.toNat_shiftRight, Nat.shiftRight_eq_div_pow]
    exact Nat.div_lt_of_lt_mul b.toNat_lt⟩

def lowNibble (b : UInt8) : Fin 16 :=
  ⟨(b &&& 0x0F).toNat, by
    rw [UInt8.toNat_and]
    exact Nat.lt_succ_of_le Nat.and_le_right⟩

/-- `aes_sbox[b >> 4][b & 0x0F]`. -/
def sbox (b : UInt8) : UInt8 := aesSbox[highNibble b][lowNibble b]

/-- `aes_invsbox[b >> 4][b & 0x0F]`. -/
def invsbox (b : UInt8) : UInt8 := aesInvsbox[highNibble b][lowNibble b]

/-- `gf_mul[b][k]`. -/
def mul (b : UInt8) (k : Fin 6) : UInt8 := (gfMul.get b.toFin)[k]

/-! ## Key expansion -/

/-- `KE_ROTWORD`. -/
def keRotword (x : UInt32) : UInt32 := (x <<< 8) ||| (x >>> 24)

/-- `SubWord`. -/
def subWord (word : UInt32) : UInt32 :=
  (sbox word.toUInt8).toUInt32
    + ((sbox (word >>> 8).toUInt8).toUInt32 <<< 8)
    + ((sbox (word >>> 16).toUInt8).toUInt32 <<< 16)
    + ((sbox (word >>> 24).toUInt8).toUInt32 <<< 24)

/-- `Rcon`. -/
def rcon : List UInt32 :=
  [0x01000000, 0x02000000, 0x04000000, 0x08000000, 0x10000000, 0x20000000, 0x40000000,
    0x80000000, 0x1b000000, 0x36000000, 0x6c000000, 0xd8000000, 0xab000000, 0x4d000000,
    0x9a000000]

/-- The loop behind the words of the key, `n` times: `w` is what it has written. -/
def expandWords (Nk : Nat) : Nat → List UInt32 → List UInt32
  | 0, w => w
  | n + 1, w =>
      let idx := w.length
      let temp := w.getD (idx - 1) 0
      let temp :=
        if idx % Nk = 0 then subWord (keRotword temp) ^^^ rcon.getD ((idx - 1) / Nk) 0
        else if Nk > 6 ∧ idx % Nk = 4 then subWord temp
        else temp
      expandWords Nk n (w ++ [w.getD (idx - Nk) 0 ^^^ temp])

/-- `aes_key_setup`; `w` is what the array for the schedule holds before. -/
def aesKeySetup (key : Bytes) (w : List UInt32) (keysize : Int) : List UInt32 :=
  let sizes : Option (Nat × Nat) :=
    if keysize = 128 then some (10, 4)
    else if keysize = 192 then some (12, 6)
    else if keysize = 256 then some (14, 8)
    else none
  match sizes with
  | none => w
  | some (Nr, Nk) =>
      let first := (List.range Nk).map (fun idx =>
        ((key.getD (4 * idx) 0).toUInt32 <<< 24) ||| ((key.getD (4 * idx + 1) 0).toUInt32 <<< 16)
          ||| ((key.getD (4 * idx + 2) 0).toUInt32 <<< 8) ||| (key.getD (4 * idx + 3) 0).toUInt32)
      expandWords Nk (4 * (Nr + 1) - Nk) first ++ w.drop (4 * (Nr + 1))

/-! ## The steps of a round -/

/-- `BYTE state[4][4]`. -/
abbrev State := Vector (Vector UInt8 4) 4

/-- `state[r][c]`. -/
def cell (state : State) (r c : Fin 4) : UInt8 := (state.get r).get c

/-- A state by its rows and columns. -/
def cells (f : Fin 4 → Fin 4 → UInt8) : State := Vector.ofFn (fun r => Vector.ofFn (fun c => f r c))

/-- `AddRoundKey(state, &key[idx])`: a word for every column, its first byte for the
    first row. -/
def addRoundKey (key : List UInt32) (idx : Nat) (state : State) : State :=
  cells (fun r c =>
    cell state r c ^^^ (key.getD (idx + c.val) 0 >>> UInt32.ofNat (24 - 8 * r.val)).toUInt8)

/-- `SubBytes`. -/
def subBytes (state : State) : State := cells (fun r c => sbox (cell state r c))

/-- `InvSubBytes`. -/
def invSubBytes (state : State) : State := cells (fun r c => invsbox (cell state r c))

/-- `ShiftRows`. -/
def shiftRows (state : State) : State :=
  #v[#v[cell state 0 0, cell state 0 1, cell state 0 2, cell state 0 3],
    #v[cell state 1 1, cell state 1 2, cell state 1 3, cell state 1 0],
    #v[cell state 2 2, cell state 2 3, cell state 2 0, cell state 2 1],
    #v[cell state 3 3, cell state 3 0, cell state 3 1, cell state 3 2]]

/-- `InvShiftRows`. -/
def invShiftRows (state : State) : State :=
  #v[#v[cell state 0 0, cell state 0 1, cell state 0 2, cell state 0 3],
    #v[cell state 1 3, cell state 1 0, cell state 1 1, cell state 1 2],
    #v[cell state 2 2, cell state 2 3, cell state 2 0, cell state 2 1],
    #v[cell state 3 1, cell state 3 2, cell state 3 3, cell state 3 0]]

/-- `MixColumns`. -/
def mixColumns (state : State) : State :=
  cells (fun r c =>
    let col : Fin 4 → UInt8 := fun i => cell state i c
    match r with
    | 0 => mul (col 0) 0 ^^^ mul (col 1) 1 ^^^ col 2 ^^^ col 3
    | 1 => col 0 ^^^ mul (col 1) 0 ^^^ mul (col 2) 1 ^^^ col 3
    | 2 => col 0 ^^^ col 1 ^^^ mul (col 2) 0 ^^^ mul (col 3) 1
    | 3 => mul (col 0) 1 ^^^ col 1 ^^^ col 2 ^^^ mul (col 3) 0)

/-- `InvMixColumns`. -/
def invMixColumns (state : State) : State :=
  cells (fun r c =>
    let col : Fin 4 → UInt8 := fun i => cell state i c
    match r with
    | 0 => mul (col 0) 5 ^^^ mul (col 1) 3 ^^^ mul (col 2) 4 ^^^ mul (col 3) 2
    | 1 => mul (col 0) 2 ^^^ mul (col 1) 5 ^^^ mul (col 2) 3 ^^^ mul (col 3) 4
    | 2 => mul (col 0) 4 ^^^ mul (col 1) 2 ^^^ mul (col 2) 5 ^^^ mul (col 3) 3
    | 3 => mul (col 0) 3 ^^^ mul (col 1) 4 ^^^ mul (col 2) 2 ^^^ mul (col 3) 5)

/-! ## Blocks -/

/-- A block is copied to the state column by column, and back. -/
def loadState (input : Vector UInt8 16) : State :=
  cells (fun r c => input.get ⟨4 * c.val + r.val, by omega⟩)

def storeState (state : State) : Vector UInt8 16 :=
  Vector.ofFn (fun i =>
    cell state ⟨i.val % 4, Nat.mod_lt _ (by decide)⟩ ⟨i.val / 4, by omega⟩)

/-- `SubBytes(state); ShiftRows(state); MixColumns(state); AddRoundKey(state, &key[idx]);`. -/
def encryptRound (key : List UInt32) (state : State) (idx : Nat) : State :=
  addRoundKey key idx (mixColumns (shiftRows (subBytes state)))

/-- `InvShiftRows(state); InvSubBytes(state); AddRoundKey(state, &key[idx]); InvMixColumns(state);`. -/
def decryptRound (key : List UInt32) (state : State) (idx : Nat) : State :=
  invMixColumns (addRoundKey key idx (invSubBytes (invShiftRows state)))

/-- `SubBytes(state); ShiftRows(state); AddRoundKey(state, &key[idx]);`. -/
def lastRound (key : List UInt32) (state : State) (idx : Nat) : State :=
  addRoundKey key idx (shiftRows (subBytes state))

/-- `aes_encrypt`. -/
def aesEncrypt (input : Vector UInt8 16) (key : List UInt32) (keysize : Int) : Vector UInt8 16 :=
  let state := addRoundKey key 0 (loadState input)
  let state := [4, 8, 12, 16, 20, 24, 28, 32, 36].foldl (encryptRound key) state
  let state :=
    if keysize ≠ 128 then
      let state := [40, 44].foldl (encryptRound key) state
      if keysize ≠ 192 then
        let state := [48, 52].foldl (encryptRound key) state
        lastRound key state 56
      else lastRound key state 48
    else lastRound key state 40
  storeState state

/-- `aes_decrypt`. -/
def aesDecrypt (input : Vector UInt8 16) (key : List UInt32) (keysize : Int) : Vector UInt8 16 :=
  let state := loadState input
  let state :=
    if keysize > 128 then
      let state :=
        if keysize > 192 then [52, 48].foldl (decryptRound key) (addRoundKey key 56 state)
        else addRoundKey key 48 state
      [44, 40].foldl (decryptRound key) state
    else addRoundKey key 40 state
  let state := [36, 32, 28, 24, 20, 16, 12, 8, 4].foldl (decryptRound key) state
  let state := addRoundKey key 0 (invSubBytes (invShiftRows state))
  storeState state

/-- The bundled AES in the place of the one that is a parameter, with 256 bits of key;
    `schedule` is what the array for the schedule holds before. -/
def withAes (schedule : List UInt32) (prim : Primitives) : Primitives :=
  { prim with
    aesEncrypt := fun key block =>
      aesEncrypt block (aesKeySetup key.toList schedule 256) 256
    aesDecrypt := fun key block =>
      aesDecrypt block (aesKeySetup key.toList schedule 256) 256 }

/-- The first block of `AES Test Case 1`: key and block of zeros. -/
example : aesEncrypt (Vector.replicate 16 0) (aesKeySetup (List.replicate 32 0) [] 256) 256
    = #v[0xDC, 0x95, 0xC0, 0x78, 0xA2, 0x40, 0x89, 0x89, 0xAD, 0x48, 0xA2, 0x14, 0x92, 0x84,
      0x20, 0x87] := by decide +kernel

end OlmAes
